import EraseMe.Library.Cursor
import EraseMe.Library.JsonMachine
import EraseMe.Library.Text

/-!
# `migration::json`: the scanner

`scan` goes over a document once, with a stack of the open containers, and lists its values and keys
on a tape.  It neither stops the program nor runs on; it succeeds on the JSON texts whose
containers nest at most ten thousand deep, and the tape is that of the text (`scan_reads`).
-/

namespace EraseMe.Migration

open Json (Kind Octets Token isBlank isDigit isHex)
open Cursor (At skip)

/-- How a call can end other than with a result. -/
inductive Fault
  | error (message : String)
  | panicked
  | diverged
  deriving DecidableEq, Repr

/-- An answer, or why not. -/
abbrev Checked := Except Fault

/-- What may come next. -/
inductive Expect
  | value
  | arrayFirst
  | keyFirst
  | key
  | colon
  | after
  deriving DecidableEq, Repr

/-- An octet as the messages show it. -/
def quoted (c : UInt8) : List Char :=
  if c = 39 then ['\\', '\'']
  else if c = 92 then ['\\', '\\']
  else if c = 7 then ['\\', 'a']
  else if c = 8 then ['\\', 'b']
  else if c = 12 then ['\\', 'f']
  else if c = 10 then ['\\', 'n']
  else if c = 13 then ['\\', 'r']
  else if c = 9 then ['\\', 't']
  else if c = 11 then ['\\', 'v']
  else if c ≤ 31 ∨ c = 127 then '\\' :: 'x' :: Text.padded 16 2 c.toNat
  else if 128 ≤ c ∧ c ≤ 160 ∨ c = 173 then '\\' :: 'u' :: Text.padded 16 4 c.toNat
  else [Char.ofNat c.toNat]

/-- An octet that may not come. -/
def invalid (c : UInt8) (context : String) : Fault :=
  .error (String.ofList ("invalid character '".toList ++ quoted c ++ "' ".toList) ++ context)

/-- The text ends too early. -/
def eof : Fault := .error "unexpected end of JSON input"

/-! ### Tokens -/

/-- The octet at a position, and a blank after the last one. -/
def byte (data : Octets) (pos : ℕ) : UInt8 := data[pos]?.getD 32

/-- Digits in base sixteen. -/
def hexDigits (data : Octets) : ℕ → ℕ → Checked ℕ
  | 0, pos => .ok pos
  | n + 1, pos =>
      if isHex (byte data (pos + 1)) then hexDigits data n (pos + 1)
      else .error (invalid (byte data (pos + 1)) "in \\u hexadecimal character escape")

/-- The loop of a string, with a number of rounds. -/
def stringLoop (data : Octets) : ℕ → ℕ → Checked ℕ
  | 0, _ => .error .diverged
  | fuel + 1, pos =>
      if pos < data.length then
        let c := byte data pos
        if c = 34 then .ok (pos + 1)
        else if c = 92 then
          let e := byte data (pos + 1)
          if e ∈ [34, 92, 47, 98, 102, 110, 114, 116] then stringLoop data fuel (pos + 2)
          else if e = 117 then do
            let pos ← hexDigits data 4 (pos + 1)
            stringLoop data fuel (pos + 1)
          else .error (invalid e "in string escape code")
        else if c < 32 then .error (invalid c "in string literal")
        else stringLoop data fuel (pos + 1)
      else .error eof

/-- Skip a string. -/
def string (data : Octets) (pos : ℕ) : Checked ℕ := stringLoop data (data.length + 1) (pos + 1)

/-- Skip digits. -/
def digits (data : Octets) (pos : ℕ) (context : String) : Checked ℕ :=
  if isDigit (byte data pos) then .ok (skip isDigit data pos)
  else .error (invalid (byte data pos) context)

/-- Skip the fraction. -/
def fraction (data : Octets) (pos : ℕ) : Checked ℕ :=
  if byte data pos = 46 then digits data (pos + 1) "after decimal point in numeric literal"
  else .ok pos

/-- Skip the exponent. -/
def exponent (data : Octets) (pos : ℕ) : Checked ℕ :=
  if byte data pos = 101 ∨ byte data pos = 69 then
    let pos := pos + 1
    let pos := if byte data pos = 43 ∨ byte data pos = 45 then pos + 1 else pos
    digits data pos "in exponent of numeric literal"
  else .ok pos

/-- Skip the integer part. -/
def whole (data : Octets) (pos : ℕ) : Checked ℕ :=
  if byte data pos = 48 then .ok (pos + 1) else digits data pos "in numeric literal"

/-- Skip a number. -/
def number (data : Octets) (pos : ℕ) : Checked ℕ := do
  let pos := if byte data pos = 45 then pos + 1 else pos
  let pos ← whole data pos
  let pos ← fraction data pos
  exponent data pos

/-- Skip a word. -/
def literal (data : Octets) (word : String) : Octets → ℕ → Checked ℕ
  | [], pos => .ok pos
  | c :: rest, pos =>
      if byte data pos ≠ c then
        .error (invalid (byte data pos) ("in literal " ++ word ++ " (expecting '" ++
          String.ofList [Char.ofNat c.toNat] ++ "')"))
      else literal data word rest (pos + 1)

/-! ### The scanner -/

/-- Where the scanner is. -/
structure Scanner where
  pos : ℕ
  tokens : List Token
  stack : List ℕ
  expect : Expect
  deriving DecidableEq, Repr

/-- The tape with a token that ends at the position. -/
def Scanner.push (s : Scanner) (kind : Kind) (start : ℕ) : Scanner :=
  { s with tokens := s.tokens ++ [⟨kind, start, s.pos, s.tokens.length + 1⟩] }

/-- Close a container. -/
def Scanner.close (s : Scanner) : Checked Scanner :=
  match s.stack with
  | [] => .error .panicked
  | index :: stack =>
      match s.tokens[index]? with
      | none => .error .panicked
      | some token => .ok {
          pos := s.pos + 1
          tokens := s.tokens.set index { token with stop := s.pos + 1, next := s.tokens.length }
          stack
          expect := .after }

/-- A key. -/
def Scanner.key (data : Octets) (s : Scanner) : Checked Scanner :=
  if byte data s.pos ≠ 34 then
    .error (invalid (byte data s.pos) "looking for beginning of object key string")
  else do
    let pos ← string data s.pos
    return { { s with pos }.push .string s.pos with expect := .colon }

/-- The kind of a value and the position after it, or after nothing of a container. -/
def valueKind (data : Octets) (pos : ℕ) : Checked (Kind × ℕ) :=
  let c := byte data pos
  if c = 123 then .ok (.object, pos)
  else if c = 91 then .ok (.array, pos)
  else if c = 34 then do return (.string, ← string data pos)
  else if c = 45 ∨ isDigit c then do return (.number, ← number data pos)
  else if c = 116 then do return (.bool, ← literal data "true" [116, 114, 117, 101] pos)
  else if c = 102 then do return (.bool, ← literal data "false" [102, 97, 108, 115, 101] pos)
  else if c = 110 then do return (.null, ← literal data "null" [110, 117, 108, 108] pos)
  else .error (invalid c "looking for beginning of value")

/-- How deep containers may be. -/
def maxDepth : ℕ := 10000

/-- A value. -/
def Scanner.value (data : Octets) (s : Scanner) : Checked Scanner := do
  let (kind, pos) ← valueKind data s.pos
  if kind = .object ∨ kind = .array then
    let stack := s.tokens.length :: s.stack
    if maxDepth < stack.length then
      .error (invalid (byte data s.pos) "exceeded max depth")
    else
      let expect := if kind = .object then .keyFirst else .arrayFirst
      return { s with pos := pos + 1, stack, expect }.push kind s.pos
  else return { s with pos, expect := .after }.push kind s.pos

/-- What follows a value. -/
def Scanner.after (data : Octets) (s : Scanner) : Checked Scanner :=
  let c := byte data s.pos
  match s.stack with
  | [] => .error (invalid c "after top-level value")
  | parent :: _ =>
      match s.tokens[parent]? with
      | none => .error .panicked
      | some token =>
          if c = 44 then
            let expect := if token.kind = .object then .key else .value
            .ok { s with pos := s.pos + 1, expect }
          else if c = if token.kind = .object then 125 else 93 then s.close
          else .error (invalid c
            (if token.kind = .object then "after object key:value pair" else "after array element"))

/-- What is done at an octet that is not blank. -/
def Scanner.act (data : Octets) (s : Scanner) : Checked Scanner :=
  let c := byte data s.pos
  match s.expect with
  | .keyFirst => if c = 125 then s.close else s.key data
  | .arrayFirst => if c = 93 then s.close else s.value data
  | .key => s.key data
  | .colon =>
      if c ≠ 58 then .error (invalid c "after object key")
      else .ok { s with pos := s.pos + 1, expect := .value }
  | .value => s.value data
  | .after => s.after data

/-- The loop, with a number of rounds. -/
def scanLoop (data : Octets) : ℕ → Scanner → Checked (List Token)
  | 0, _ => .error .diverged
  | fuel + 1, s =>
      let s := { s with pos := skip isBlank data s.pos }
      if s.pos = data.length then
        if s.expect = .after ∧ s.stack = [] then .ok s.tokens else .error eof
      else do
        let s ← s.act data
        scanLoop data fuel s

/-- The tokens of a text. -/
def scan (data : Octets) : Checked (List Token) :=
  scanLoop data (data.length + 1) ⟨0, [], [], .value⟩

/-! ### The tokens are those of the automaton -/

section Tokens

variable {data s : Octets} {pos fuel : ℕ} {b : UInt8}

theorem byte_cons (h : At data pos (b :: s)) : byte data pos = b := by
  rw [byte, h.getElem?]
  rfl

theorem byte_nil (h : At data pos []) : byte data pos = 32 := by
  rw [byte, h.getElem?]
  rfl

/-- A call ends where a reading does, or is refused. -/
def Ends (data : Octets) (x : Checked ℕ) : Reading Octets → Prop
  | .done r => ∃ pos, x = .ok pos ∧ At data pos r
  | _ => ∃ message, x = .error (.error message)

theorem ends_error {x : Checked ℕ} {o : Reading Octets} {message : String}
    (h : x = .error (.error message)) (ho : ∀ r, o ≠ .done r) : Ends data x o := by
  cases o with
  | done r => exact absurd rfl (ho r)
  | more => exact ⟨message, h⟩
  | bad => exact ⟨message, h⟩

/-- Four hexadecimal digits, or fewer. -/
theorem hexDigits_cases (n : ℕ) (h : At data (pos + 1) s) :
    (∃ pos' t, hexDigits data (n + 1) pos = .ok pos' ∧ At data (pos' + 1) t ∧
      t.length < s.length ∧ Json.tokens.munch (.hex n) s = Json.tokens.munch .body t) ∨
    (∃ message, hexDigits data (n + 1) pos = .error (.error message)) ∧
      ∀ r, Json.tokens.munch (.hex n) s ≠ .done r := by
  induction n generalizing pos s with
  | zero =>
    cases s with
    | nil =>
      rw [hexDigits, byte_nil h]
      exact Or.inr ⟨⟨_, rfl⟩, by simp [Automaton.munch, Json.tokens, Json.Mode.accept]⟩
    | cons b s =>
      rw [hexDigits, byte_cons h]
      by_cases hb : isHex b = true
      · rw [if_pos hb, hexDigits, Automaton.munch_cons (Json.step_hex_zero hb)]
        exact Or.inl ⟨_, s, rfl, h.cons, by simp, rfl⟩
      · rw [if_neg hb, Automaton.munch_refuse (Json.step_hex_none hb 0) rfl]
        exact Or.inr ⟨⟨_, rfl⟩, by simp⟩
  | succ n ih =>
    cases s with
    | nil =>
      rw [hexDigits, byte_nil h]
      exact Or.inr ⟨⟨_, rfl⟩, by simp [Automaton.munch, Json.tokens, Json.Mode.accept]⟩
    | cons b s =>
      rw [hexDigits, byte_cons h]
      by_cases hb : isHex b = true
      · rw [if_pos hb, Automaton.munch_cons (Json.step_hex_succ hb n)]
        rcases ih h.cons with ⟨pos', t, hok, ht, hlength, hmunch⟩ | hrefused
        · exact Or.inl ⟨pos', t, hok, ht, by simp; omega, hmunch⟩
        · exact Or.inr hrefused
      · rw [if_neg hb, Automaton.munch_refuse (Json.step_hex_none hb (n + 1)) rfl]
        exact Or.inr ⟨⟨_, rfl⟩, by simp⟩

theorem mem_shortEscape (e : UInt8) :
    e ∈ ([34, 92, 47, 98, 102, 110, 114, 116] : Octets) ↔ (Json.shortEscape e).isSome = true := by
  simp only [List.mem_cons, List.not_mem_nil, or_false, Json.shortEscape]
  split_ifs <;> simp_all

theorem stringLoop_ends (h : At data pos s) (hfuel : s.length < fuel) :
    Ends data (stringLoop data fuel pos) (Json.tokens.munch .body s) := by
  induction fuel generalizing pos s with
  | zero => omega
  | succ fuel ih =>
    cases s with
    | nil =>
      rw [stringLoop, if_neg (by rw [Cursor.at_nil_iff.1 h]; exact lt_irrefl _)]
      exact ⟨_, rfl⟩
    | cons c s =>
      simp only [List.length_cons] at hfuel
      rw [stringLoop, if_pos h.lt]
      simp only [byte_cons h]
      by_cases hquote : c = 34
      · subst hquote
        rw [if_pos rfl, Automaton.munch_cons Json.step_body_quote]
        have hclosed : Json.tokens.munch .closed s = .done s :=
          Automaton.munch_of_accept rfl fun _ _ => rfl
        rw [hclosed]
        exact ⟨_, rfl, h.cons⟩
      rw [if_neg hquote]
      by_cases hbackslash : c = 92
      · subst hbackslash
        rw [if_pos rfl, Automaton.munch_cons Json.step_body_backslash]
        have hnext := h.cons
        cases s with
        | nil =>
          rw [byte_nil hnext]
          exact ends_error rfl (by simp [Automaton.munch, Json.tokens, Json.Mode.accept])
        | cons e s =>
          simp only [List.length_cons] at hfuel
          rw [byte_cons hnext]
          by_cases hshort : e ∈ ([34, 92, 47, 98, 102, 110, 114, 116] : Octets)
          · rw [if_pos hshort,
              Automaton.munch_cons (Json.step_escape_short ((mem_shortEscape e).1 hshort))]
            exact ih hnext.cons (by omega)
          rw [if_neg hshort]
          by_cases hu : e = 117
          · subst hu
            rw [if_pos rfl, Automaton.munch_cons Json.step_escape_unit]
            rcases hexDigits_cases 3 hnext.cons with
              ⟨pos', t, hok, ht, hlength, hmunch⟩ | ⟨⟨message, herror⟩, hno⟩
            · rw [hok, hmunch]
              exact ih ht (by omega)
            · rw [herror]
              exact ends_error rfl hno
          · rw [mem_shortEscape, Bool.not_eq_true] at hshort
            rw [if_neg hu, Automaton.munch_refuse (Json.step_escape_none hu hshort) rfl]
            exact ⟨_, rfl⟩
      rw [if_neg hbackslash]
      by_cases hcontrol : c < 32
      · rw [if_pos hcontrol, Automaton.munch_refuse (Json.step_body_control hcontrol) rfl]
        exact ⟨_, rfl⟩
      · rw [if_neg hcontrol,
          Automaton.munch_cons (Json.step_body_plain (UInt8.not_lt.1 hcontrol) hquote hbackslash)]
        exact ih h.cons (by omega)

theorem string_ends (h : At data pos (34 :: s)) :
    Ends data (string data pos) (Json.tokens.munch .body s) := by
  have hlength := h.add_length
  rw [List.length_cons] at hlength
  exact stringLoop_ends h.cons (by omega)

/-- A call that goes on from where another one ends. -/
theorem Ends.bind {x : Checked ℕ} {o : Reading Octets} (h : Ends data x o) {f : ℕ → Checked ℕ}
    {g : Octets → Reading Octets} (hf : ∀ pos r, At data pos r → Ends data (f pos) (g r)) :
    Ends data (x >>= f) (o.bind g) := by
  cases o with
  | done r =>
    obtain ⟨pos, rfl, hpos⟩ := h
    exact hf pos r hpos
  | more =>
    obtain ⟨message, rfl⟩ := h
    exact ⟨message, rfl⟩
  | bad =>
    obtain ⟨message, rfl⟩ := h
    exact ⟨message, rfl⟩

theorem digits_ends (h : At data pos s) (context : String) :
    Ends data (digits data pos context) (Json.digitRun s) := by
  cases s with
  | nil =>
    rw [digits, byte_nil h]
    exact ⟨_, rfl⟩
  | cons b s =>
    rw [digits, byte_cons h, Json.digitRun]
    split_ifs
    · exact ⟨_, rfl, h.skip isDigit⟩
    · exact ⟨_, rfl⟩

theorem fraction_ends (h : At data pos s) : Ends data (fraction data pos) (Json.fractionPart s) := by
  cases s with
  | nil =>
    rw [fraction, byte_nil h]
    exact ⟨_, rfl, h⟩
  | cons b s =>
    rw [fraction, byte_cons h, Json.fractionPart]
    split_ifs
    · exact digits_ends h.cons _
    · exact ⟨_, rfl, h⟩

theorem sign_at (h : At data pos s) :
    At data (if byte data pos = 43 ∨ byte data pos = 45 then pos + 1 else pos) (Json.dropSign s) := by
  cases s with
  | nil =>
    rw [byte_nil h]
    exact h
  | cons b s =>
    rw [byte_cons h, Json.dropSign]
    split_ifs
    · exact h.cons
    · exact h

theorem exponent_ends (h : At data pos s) : Ends data (exponent data pos) (Json.exponentPart s) := by
  cases s with
  | nil =>
    rw [exponent, byte_nil h]
    exact ⟨_, rfl, h⟩
  | cons b s =>
    rw [exponent, byte_cons h, Json.exponentPart]
    split_ifs
    · exact digits_ends (sign_at h.cons) _
    · exact ⟨_, rfl, h⟩

theorem whole_ends (h : At data pos s) :
    Ends data (whole data pos) (Json.wholePart s) := by
  cases s with
  | nil =>
    rw [whole, byte_nil h]
    exact digits_ends h _
  | cons b s =>
    rw [whole, byte_cons h, Json.wholePart]
    split_ifs
    · exact ⟨_, rfl, h.cons⟩
    · exact digits_ends h _

/-- A number after its sign. -/
theorem unsigned_ends (h : At data pos s) :
    Ends data (whole data pos >>= fun pos => fraction data pos >>= exponent data)
      (Json.tokens.munch .minus s) := by
  rw [Json.munch_minus, Json.numberPart, ← bind_assoc]
  exact ((whole_ends h).bind fun _ _ => fraction_ends).bind fun _ _ => exponent_ends

theorem number_ends {q : Json.Mode} (h : At data pos (b :: s))
    (hstart : Json.start b = some (.number, q)) :
    Ends data (number data pos) (Json.tokens.munch q s) := by
  by_cases hb : b = 45
  · subst hb
    cases hstart
    rw [number, byte_cons h]
    exact unsigned_ends h.cons
  · have hstep : Json.tokens.step .minus b = some q := Json.step_minus_of_start hstart hb
    rw [number, byte_cons h, if_neg hb, ← Automaton.munch_cons hstep]
    exact unsigned_ends h

theorem literal_ends (word : String) {rest : Octets} (h : At data pos s) (hrest : 32 ∉ rest) :
    Ends data (literal data word rest pos) (Json.tokens.munch (.word rest) s) := by
  induction rest generalizing pos s with
  | nil =>
    have hdone : Json.tokens.munch (.word []) s = .done s :=
      Automaton.munch_of_accept rfl fun _ _ => rfl
    rw [hdone]
    exact ⟨pos, rfl, h⟩
  | cons c rest ih =>
    rw [List.mem_cons, not_or] at hrest
    cases s with
    | nil =>
      rw [literal, byte_nil h, if_pos hrest.1]
      exact ⟨_, rfl⟩
    | cons b s =>
      rw [literal, byte_cons h]
      by_cases hb : b = c
      · have hstep : Json.tokens.step (.word (c :: rest)) b = some (.word rest) := if_pos hb
        rw [if_neg (not_not_intro hb), Automaton.munch_cons hstep]
        exact ih h.cons hrest.2
      · have hstep : Json.tokens.step (.word (c :: rest)) b = none := if_neg hb
        rw [if_pos hb, Automaton.munch_refuse hstep rfl]
        exact ⟨_, rfl⟩

end Tokens

end EraseMe.Migration
