import EraseMe.Migration.Json

/-!
# What the scanner of `migration::json` accepts

The scanner goes along with the machine that reads JSON values (`act_follows`), so that it always
ends and accepts nothing but JSON texts (`scanLoop_follows`).  On a text it goes through the tree and
leaves the tape of the tree (`yields_tree`); `scan_reads` puts the two together.
-/

namespace EraseMe.Migration

open Json (Blank Bracket Entries Head Kind Leads Move Octets Space Token Tree isBlank skipBlank)
open Cursor (At skip)

/-! ### Values -/

section Values

variable {data s r : Octets} {pos : ℕ} {b : UInt8} {kind : Kind} {q : Json.Mode}
  {tokens : List Token} {stack : List ℕ} {expect : Expect}

theorem valueKind_start (h : At data pos (b :: s)) (hstart : Json.start b = some (kind, q)) :
    ∃ x : Checked ℕ, valueKind data pos = (x >>= fun pos => pure (kind, pos)) ∧
      Ends data x (Json.tokens.munch q s) := by
  rcases Json.start_cases hstart with ⟨rfl, rfl, rfl⟩ | ⟨rfl, rfl, rfl⟩ | ⟨rfl, rfl, rfl⟩ |
    ⟨hb, hzero, rfl, rfl⟩ | ⟨rfl, rfl, rfl⟩ | ⟨rfl, rfl, rfl⟩ | ⟨rfl, rfl, rfl⟩
  · refine ⟨string data pos, ?_, string_ends h⟩
    rw [valueKind, byte_cons h]
    rfl
  · refine ⟨number data pos, ?_, number_ends h hstart⟩
    rw [valueKind, byte_cons h]
    rfl
  · refine ⟨number data pos, ?_, number_ends h hstart⟩
    rw [valueKind, byte_cons h]
    rfl
  · refine ⟨number data pos, ?_, number_ends h hstart⟩
    have hne {c : UInt8} (hc : Json.isDigit c = false) : b ≠ c := Json.isDigit_ne hb hc
    rw [valueKind, byte_cons h]
    simp only [if_neg (hne (c := 123) rfl), if_neg (hne (c := 91) rfl),
      if_neg (hne (c := 34) rfl), hb, or_true, if_true]
  · refine ⟨literal data "true" [116, 114, 117, 101] pos, ?_, ?_⟩
    · rw [valueKind, byte_cons h]
      rfl
    · exact literal_ends "true" h (by decide)
  · refine ⟨literal data "false" [102, 97, 108, 115, 101] pos, ?_, ?_⟩
    · rw [valueKind, byte_cons h]
      rfl
    · exact literal_ends "false" h (by decide)
  · refine ⟨literal data "null" [110, 117, 108, 108] pos, ?_, ?_⟩
    · rw [valueKind, byte_cons h]
      rfl
    · exact literal_ends "null" h (by decide)

theorem valueKind_none (h : At data pos (b :: s)) (hstart : Json.start b = none) (harray : b ≠ 91)
    (hobject : b ≠ 123) : ∃ message, valueKind data pos = .error (.error message) := by
  unfold Json.start at hstart
  rw [valueKind, byte_cons h]
  split_ifs at hstart with h34 h45 h48 hdigit h116 h102 h110
  have hnumber : ¬ (b = 45 ∨ Json.isDigit b = true) := by
    rintro (hb | hb)
    · exact h45 hb
    · exact hdigit hb
  simp only [if_neg hobject, if_neg harray, if_neg h34, if_neg hnumber, if_neg h116, if_neg h102,
    if_neg h110]
  exact ⟨_, rfl⟩

/-- What is made of a token that is looked for. -/
theorem valueKind_ends (h : At data pos (b :: s)) (harray : b ≠ 91) (hobject : b ≠ 123) :
    match Json.readToken (b :: s) with
    | .done (kind, r) => kind ≠ .object ∧ kind ≠ .array ∧
        ∃ pos', valueKind data pos = .ok (kind, pos') ∧ At data pos' r
    | _ => ∃ message, valueKind data pos = .error (.error message) := by
  rw [Json.readToken]
  cases hstart : Json.start b with
  | none => exact valueKind_none h hstart harray hobject
  | some p =>
    obtain ⟨kind, q⟩ := p
    obtain ⟨x, hx, hends⟩ := valueKind_start h hstart
    simp only
    rw [hx]
    cases hmunch : Json.tokens.munch q s with
    | done r =>
      rw [hmunch] at hends
      obtain ⟨pos', rfl, hpos⟩ := hends
      have hkind : kind ≠ .object ∧ kind ≠ .array := by
        rcases Json.start_cases hstart with ⟨-, rfl, -⟩ | ⟨-, rfl, -⟩ | ⟨-, rfl, -⟩ |
          ⟨-, -, rfl, -⟩ | ⟨-, rfl, -⟩ | ⟨-, rfl, -⟩ | ⟨-, rfl, -⟩ <;> simp
      exact ⟨hkind.1, hkind.2, pos', rfl, hpos⟩
    | more =>
      rw [hmunch] at hends
      obtain ⟨message, rfl⟩ := hends
      exact ⟨message, rfl⟩
    | bad =>
      rw [hmunch] at hends
      obtain ⟨message, rfl⟩ := hends
      exact ⟨message, rfl⟩

/-- What is looked for first within brackets. -/
def firstOf : Bracket → Expect
  | .array => .arrayFirst
  | .object => .keyFirst

/-- What an entry starts with. -/
def entryOf : Bracket → Expect
  | .array => .value
  | .object => .key

theorem value_open (bracket : Bracket) (h : At data pos (bracket.opening :: r))
    (hdepth : stack.length < maxDepth) :
    Scanner.value data ⟨pos, tokens, stack, expect⟩ = .ok
      ⟨pos + 1, tokens ++ [⟨bracket.kind, pos, pos + 1, tokens.length + 1⟩],
        tokens.length :: stack, firstOf bracket⟩ := by
  have hshallow : ¬ maxDepth < (tokens.length :: stack).length := by
    rw [List.length_cons]
    omega
  have hkind : valueKind data pos = .ok (bracket.kind, pos) := by
    rw [valueKind, byte_cons h]
    cases bracket <;> rfl
  rw [Scanner.value, hkind]
  cases bracket
  · exact if_neg hshallow
  · exact if_neg hshallow

theorem value_deep (bracket : Bracket) (h : At data pos (bracket.opening :: r))
    (hdepth : ¬ stack.length < maxDepth) :
    ∃ message, Scanner.value data ⟨pos, tokens, stack, expect⟩ = .error (.error message) := by
  have hdeep : maxDepth < (tokens.length :: stack).length := by
    rw [List.length_cons]
    omega
  have hkind : valueKind data pos = .ok (bracket.kind, pos) := by
    rw [valueKind, byte_cons h]
    cases bracket <;> rfl
  rw [Scanner.value, hkind]
  cases bracket
  · exact ⟨_, if_pos hdeep⟩
  · exact ⟨_, if_pos hdeep⟩

theorem value_token (tokens : List Token) (stack : List ℕ) (expect : Expect)
    (h : At data pos (b :: s)) (harray : b ≠ 91) (hobject : b ≠ 123)
    (hread : Json.readToken (b :: s) = .done (kind, r)) :
    ∃ pos', At data pos' r ∧ Scanner.value data ⟨pos, tokens, stack, expect⟩ = .ok
      ⟨pos', tokens ++ [⟨kind, pos, pos', tokens.length + 1⟩], stack, .after⟩ := by
  have hends := valueKind_ends h harray hobject
  rw [hread] at hends
  obtain ⟨hnobject, hnarray, pos', hkind, hpos⟩ := hends
  refine ⟨pos', hpos, ?_⟩
  rw [Scanner.value, hkind]
  exact if_neg (by simp [hnobject, hnarray])

theorem value_refused (h : At data pos (b :: s)) (harray : b ≠ 91) (hobject : b ≠ 123)
    (hread : ∀ p, Json.readToken (b :: s) ≠ .done p) :
    ∃ message, Scanner.value data ⟨pos, tokens, stack, expect⟩ = .error (.error message) := by
  have hends := valueKind_ends h harray hobject
  cases ho : Json.readToken (b :: s) with
  | done p => exact absurd ho (hread p)
  | more =>
    rw [ho] at hends
    obtain ⟨message, hmessage⟩ := hends
    rw [Scanner.value, hmessage]
    exact ⟨message, rfl⟩
  | bad =>
    rw [ho] at hends
    obtain ⟨message, hmessage⟩ := hends
    rw [Scanner.value, hmessage]
    exact ⟨message, rfl⟩

theorem readToken_quote (s : Octets) : Json.readToken (34 :: s) =
    (Json.tokens.munch .body s).bind fun r => .done (.string, r) := by
  rw [Json.readToken]
  cases hmunch : Json.tokens.munch .body s <;> simp [Json.start, hmunch]

theorem key_token (tokens : List Token) (stack : List ℕ) (expect : Expect) (h : At data pos (34 :: s))
    (hread : Json.readToken (34 :: s) = .done (kind, r)) :
    ∃ pos', At data pos' r ∧ Scanner.key data ⟨pos, tokens, stack, expect⟩ = .ok
      ⟨pos', tokens ++ [⟨.string, pos, pos', tokens.length + 1⟩], stack, .colon⟩ := by
  have hends := string_ends h
  rw [readToken_quote] at hread
  cases hmunch : Json.tokens.munch .body s with
  | done r' =>
    rw [hmunch] at hends hread
    obtain ⟨pos', hstring, hpos⟩ := hends
    cases hread
    refine ⟨pos', hpos, ?_⟩
    rw [Scanner.key, if_neg (by rw [byte_cons h]; exact not_not_intro rfl), hstring]
    rfl
  | more =>
    rw [hmunch] at hread
    cases hread
  | bad =>
    rw [hmunch] at hread
    cases hread

theorem key_refused (h : At data pos (b :: s))
    (hread : b = 34 → ∀ p, Json.readToken (b :: s) ≠ .done p) :
    ∃ message, Scanner.key data ⟨pos, tokens, stack, expect⟩ = .error (.error message) := by
  by_cases hquote : b = 34
  · subst hquote
    have hends := string_ends h
    rw [readToken_quote] at hread
    rw [Scanner.key, if_neg (by rw [byte_cons h]; exact not_not_intro rfl)]
    cases hmunch : Json.tokens.munch .body s with
    | done r => exact absurd (by rw [hmunch]; rfl) (hread rfl (.string, r))
    | more =>
      rw [hmunch] at hends
      obtain ⟨message, hmessage⟩ := hends
      rw [hmessage]
      exact ⟨message, rfl⟩
    | bad =>
      rw [hmunch] at hends
      obtain ⟨message, hmessage⟩ := hends
      rw [hmessage]
      exact ⟨message, rfl⟩
  · rw [Scanner.key, if_pos (by rwa [byte_cons h])]
    exact ⟨_, rfl⟩

end Values

/-! ### The scanner goes along with the machine -/

/-- What the scanner looks for where the machine looks for something. -/
inductive Looks : Expect → Json.Expect → List Bracket → Prop
  | value (k : List Bracket) : Looks .value .value k
  | first (bracket : Bracket) (k : List Bracket) : Looks (firstOf bracket) .first (bracket :: k)
  | key (k : List Bracket) : Looks .key .key k
  | colon (k : List Bracket) : Looks .colon .colon k
  | after (k : List Bracket) : Looks .after .after k

/-- The tokens on the stack are the open brackets. -/
def Opened (tokens : List Token) (stack : List ℕ) (k : List Bracket) : Prop :=
  List.Forall₂ (fun index bracket => (tokens.map Token.kind)[index]? = some (Bracket.kind bracket))
    stack k

/-- Scanner and machine at one place. -/
structure Follows (data : Octets) (s : Scanner) (e : Json.Expect) (k : List Bracket) (t : Octets) :
    Prop where
  pos : At data s.pos t
  looks : Looks s.expect e k
  opened : Opened s.tokens s.stack k

section Follows

variable {data s t r : Octets} {pos index : ℕ} {b : UInt8} {tokens : List Token} {stack : List ℕ}
  {expect : Expect} {e : Json.Expect} {k : List Bracket} {x : Checked Scanner}

theorem looks_entry (bracket : Bracket) (k : List Bracket) : Looks (entryOf bracket) bracket.entry k :=
  match bracket with
  | .array => .value k
  | .object => .key k

theorem Opened.append (h : Opened tokens stack k) (token : Token) :
    Opened (tokens ++ [token]) stack k := by
  refine h.imp fun index bracket hkind => ?_
  rw [List.map_append, List.getElem?_append_left, hkind]
  exact (List.getElem?_eq_some_iff.1 hkind).1

theorem Opened.push (h : Opened tokens stack k) {bracket : Bracket} {token : Token}
    (hkind : token.kind = bracket.kind) :
    Opened (tokens ++ [token]) (tokens.length :: stack) (bracket :: k) := by
  refine .cons ?_ (h.append token)
  rw [List.map_append, List.getElem?_append_right (by simp)]
  simp [hkind]

theorem Opened.top {bracket : Bracket} (h : Opened tokens (index :: stack) (bracket :: k)) :
    ∃ token, tokens[index]? = some token ∧ token.kind = bracket.kind := by
  obtain ⟨hkind, -⟩ := List.forall₂_cons.1 h
  rwa [List.getElem?_map, Option.map_eq_some_iff] at hkind

theorem Opened.set (h : Opened tokens stack k) {token closed : Token}
    (htoken : tokens[index]? = some token) (hkind : closed.kind = token.kind) :
    Opened (tokens.set index closed) stack k := by
  have hsame : (tokens.set index closed).map Token.kind = tokens.map Token.kind := by
    obtain ⟨hlt, rfl⟩ := List.getElem?_eq_some_iff.1 htoken
    rw [List.map_set, hkind, ← List.getElem_map Token.kind (h := by simpa using hlt)]
    exact List.set_getElem_self _
  rwa [Opened, hsame]

/-- What the scanner does where the machine makes a move. -/
def Acts (data : Octets) (x : Checked Scanner) : Move → Prop
  | .next e k t => ∃ s', x = .ok s' ∧ Follows data s' e k t
  | .stop _ => ∃ message, x = .error (.error message)

theorem close_acts {bracket : Bracket} (h : At data pos (b :: r))
    (hopened : Opened tokens stack (bracket :: k)) :
    Acts data (Scanner.close ⟨pos, tokens, stack, expect⟩) (.next .after k r) := by
  cases stack with
  | nil => cases hopened
  | cons index stack =>
    obtain ⟨token, htoken, hkind⟩ := hopened.top
    have hrest : Opened tokens stack k := (List.forall₂_cons.1 hopened).2
    refine ⟨⟨pos + 1, tokens.set index { token with stop := pos + 1, next := tokens.length },
      stack, .after⟩, ?_, h.cons, .after k, hrest.set htoken rfl⟩
    rw [Scanner.close]
    simp only [htoken]

theorem value_acts (h : At data pos (b :: r)) (hopened : Opened tokens stack k) :
    Acts data (Scanner.value data ⟨pos, tokens, stack, expect⟩) (Json.valueMove maxDepth k b r) := by
  have hlength := hopened.length_eq
  have hopen (bracket : Bracket) (hb : b = bracket.opening) :
      Acts data (Scanner.value data ⟨pos, tokens, stack, expect⟩)
        (Json.openMove maxDepth bracket k r) := by
    subst hb
    rw [Json.openMove, ← hlength]
    by_cases hdepth : stack.length < maxDepth
    · rw [if_pos hdepth]
      exact ⟨_, value_open bracket h hdepth, h.cons, .first bracket k, hopened.push rfl⟩
    · rw [if_neg hdepth]
      exact value_deep bracket h hdepth
  rw [Json.valueMove]
  by_cases harray : b = 91
  · rw [if_pos harray]
    exact hopen .array harray
  rw [if_neg harray]
  by_cases hobject : b = 123
  · rw [if_pos hobject]
    exact hopen .object hobject
  rw [if_neg hobject]
  cases hread : Json.readToken (b :: r) with
  | done p =>
    obtain ⟨kind, r'⟩ := p
    obtain ⟨pos', hpos, hvalue⟩ := value_token _ _ _ h harray hobject hread
    exact ⟨_, hvalue, hpos, .after k, hopened.append _⟩
  | more => exact value_refused h harray hobject fun p hp => by rw [hread] at hp; cases hp
  | bad => exact value_refused h harray hobject fun p hp => by rw [hread] at hp; cases hp

theorem key_acts (h : At data pos (b :: r)) (hopened : Opened tokens stack k) :
    Acts data (Scanner.key data ⟨pos, tokens, stack, expect⟩) (Json.keyMove k b r) := by
  rw [Json.keyMove]
  by_cases hquote : b = 34
  · rw [if_pos hquote]
    subst hquote
    cases hread : Json.readToken (34 :: r) with
    | done p =>
      obtain ⟨kind, r'⟩ := p
      obtain ⟨pos', hpos, hkey⟩ := key_token _ _ _ h hread
      exact ⟨_, hkey, hpos, .colon k, hopened.append _⟩
    | more => exact key_refused h fun _ p hp => by rw [hread] at hp; cases hp
    | bad => exact key_refused h fun _ p hp => by rw [hread] at hp; cases hp
  · rw [if_neg hquote]
    exact key_refused h fun hb => absurd hb hquote

theorem entry_acts (bracket : Bracket) (h : At data pos (b :: r)) (hopened : Opened tokens stack k) :
    Acts data (Scanner.act data ⟨pos, tokens, stack, entryOf bracket⟩)
      (Json.entryMove maxDepth bracket k b r) := by
  cases bracket with
  | array => exact value_acts h hopened
  | object => exact key_acts h hopened

/-- At the first entry the scanner does what it does at any entry, unless the bracket closes. -/
theorem act_first (bracket : Bracket) (h : At data pos (b :: r)) :
    Scanner.act data ⟨pos, tokens, stack, firstOf bracket⟩ =
      if b = bracket.closing then Scanner.close ⟨pos, tokens, stack, firstOf bracket⟩
      else Scanner.act data ⟨pos, tokens, stack, entryOf bracket⟩ := by
  cases bracket with
  | array =>
    show (if byte data pos = 93 then _ else _) = _
    rw [byte_cons h]
    rfl
  | object =>
    show (if byte data pos = 125 then _ else _) = _
    rw [byte_cons h]
    rfl

theorem act_after {bracket : Bracket} {token : Token} (h : At data pos (b :: r))
    (htoken : tokens[index]? = some token) (hkind : token.kind = bracket.kind) :
    Scanner.act data ⟨pos, tokens, index :: stack, .after⟩ =
      if b = 44 then .ok ⟨pos + 1, tokens, index :: stack, entryOf bracket⟩
      else if b = bracket.closing then Scanner.close ⟨pos, tokens, index :: stack, .after⟩
      else .error (invalid b (if token.kind = .object then "after object key:value pair"
        else "after array element")) := by
  show Scanner.after data ⟨pos, tokens, index :: stack, .after⟩ = _
  rw [Scanner.after, byte_cons h]
  simp only [htoken, hkind]
  cases bracket <;> rfl

theorem after_acts {bracket : Bracket} (h : At data pos (b :: r))
    (hopened : Opened tokens stack (bracket :: k)) :
    Acts data (Scanner.act data ⟨pos, tokens, stack, .after⟩)
      (Json.move maxDepth .after (bracket :: k) b r) := by
  cases stack with
  | nil => cases hopened
  | cons index stack =>
    obtain ⟨token, htoken, hkind⟩ := hopened.top
    rw [act_after h htoken hkind, Json.move]
    by_cases hcomma : b = 44
    · rw [if_pos hcomma, if_pos hcomma]
      exact ⟨_, rfl, h.cons, looks_entry bracket _, hopened⟩
    rw [if_neg hcomma, if_neg hcomma]
    by_cases hclosing : b = bracket.closing
    · rw [if_pos hclosing, if_pos hclosing]
      exact close_acts h hopened
    · rw [if_neg hclosing, if_neg hclosing]
      exact ⟨_, rfl⟩

/-- Whatever the machine moves to, the scanner comes to, and it refuses what the machine stops at. -/
theorem act_follows {s : Scanner} (h : Follows data s e k (b :: r)) (hne : ¬ (e = .after ∧ k = [])) :
    Acts data (s.act data) (Json.move maxDepth e k b r) := by
  obtain ⟨pos, tokens, stack, expect⟩ := s
  obtain ⟨hpos, hlooks, hopened⟩ := h
  cases hlooks with
  | value k => exact value_acts hpos hopened
  | first bracket k =>
    show Acts data (Scanner.act data ⟨pos, tokens, stack, firstOf bracket⟩) _
    rw [act_first bracket hpos, Json.move]
    split_ifs with hclosing
    · exact close_acts hpos hopened
    · exact entry_acts bracket hpos hopened
  | key k => exact key_acts hpos hopened
  | colon k =>
    show Acts data (if byte data pos ≠ 58 then _ else _) (if b = 58 then _ else _)
    rw [byte_cons hpos]
    by_cases hcolon : b = 58
    · rw [if_neg (not_not_intro hcolon), if_pos hcolon]
      exact ⟨_, rfl, hpos.cons, .value k, hopened⟩
    · rw [if_pos hcolon, if_neg hcolon]
      exact ⟨_, rfl⟩
  | after k =>
    cases k with
    | nil => exact absurd ⟨rfl, rfl⟩ hne
    | cons bracket k => exact after_acts hpos hopened

end Follows

/-! ### Whole scans -/

/-- The rounds of a scan up to its end. -/
inductive Yields (data : Octets) : Scanner → List Token → Prop
  | stop {s : Scanner} (hpos : skip isBlank data s.pos = data.length) (hexpect : s.expect = .after)
      (hstack : s.stack = []) : Yields data s s.tokens
  | next {s s' : Scanner} {out : List Token} (hpos : skip isBlank data s.pos ≠ data.length)
      (hact : Scanner.act data { s with pos := skip isBlank data s.pos } = .ok s')
      (rest : Yields data s' out) : Yields data s out

section Scan

variable {data t r : Octets} {pos fuel : ℕ} {b : UInt8} {tokens out : List Token}
  {stack : List ℕ} {expect : Expect} {e : Json.Expect} {k : List Bracket} {s s' : Scanner}

theorem yields_of_scanLoop (h : scanLoop data fuel s = .ok out) : Yields data s out := by
  induction fuel generalizing s with
  | zero => cases h
  | succ fuel ih =>
    rw [scanLoop] at h
    by_cases hpos : skip isBlank data s.pos = data.length
    · simp only [if_pos hpos] at h
      split_ifs at h with hend
      cases h
      exact .stop hpos hend.1 hend.2
    · simp only [if_neg hpos] at h
      cases hact : Scanner.act data { s with pos := skip isBlank data s.pos } with
      | error fault =>
        rw [hact] at h
        cases h
      | ok s' =>
        rw [hact] at h
        exact .next hpos hact (ih h)

theorem Yields.unique (h : Yields data s out) {out' : List Token} (h' : Yields data s out') :
    out = out' := by
  induction h with
  | stop hpos =>
    cases h' with
    | stop => rfl
    | next hpos' => exact absurd hpos hpos'
  | next hpos hact _ ih =>
    cases h' with
    | stop hpos' => exact absurd hpos' hpos
    | next _ hact' hrest =>
      rw [hact, Except.ok.injEq] at hact'
      exact ih (hact' ▸ hrest)

/-- Nothing but blanks is left of the text. -/
theorem Follows.end_iff (h : Follows data s e k t) :
    skip isBlank data s.pos = data.length ↔ skipBlank t = [] := by
  have hskip := h.pos.skip isBlank
  rw [← Cursor.at_nil_iff]
  refine ⟨fun hnil => ?_, fun hnil => by rwa [← hnil]⟩
  exact hskip.eq_drop.trans hnil.eq_drop.symm

/-- The scanner is behind a whole value where the machine is. -/
theorem Follows.done_iff (h : Follows data s e k t) :
    s.expect = .after ∧ s.stack = [] ↔ e = .after ∧ k = [] := by
  have hlength := h.opened.length_eq
  rw [← List.length_eq_zero_iff, hlength, List.length_eq_zero_iff]
  refine and_congr_left fun _ => ?_
  cases hs : s with
  | mk pos tokens stack expect =>
    have hlooks : Looks expect e k := by
      have := h.looks
      rwa [hs] at this
    cases hlooks with
    | first bracket k => cases bracket <;> simp [firstOf]
    | _ => simp

theorem act_done (hexpect : s.expect = .after) (hstack : s.stack = []) (pos : ℕ) :
    Scanner.act data { s with pos } = .error (invalid (byte data pos) "after top-level value") := by
  rw [Scanner.act]
  simp only [hexpect, Scanner.after, hstack]

/-- How a scan that goes along with the machine ends. -/
theorem scanLoop_follows (h : Follows data s e k t) (hfuel : t.length < fuel) :
    (∃ r, Leads maxDepth e k t (.done r) ∧ skipBlank r = [] ∧ ∃ out, scanLoop data fuel s = .ok out) ∨
    ((∀ r, Leads maxDepth e k t (.done r) → skipBlank r ≠ []) ∧
      ∃ message, scanLoop data fuel s = .error (.error message)) := by
  induction fuel generalizing s e k t with
  | zero => exact absurd hfuel (Nat.not_lt_zero _)
  | succ fuel ih =>
    have hskip := h.pos.skip isBlank
    have hend := h.end_iff
    have hdone := h.done_iff
    rw [scanLoop]
    by_cases hpos : skip isBlank data s.pos = data.length
    · -- the end of the text
      simp only [if_pos hpos]
      by_cases hstop : s.expect = .after ∧ s.stack = []
      · obtain ⟨rfl, rfl⟩ := hdone.1 hstop
        exact Or.inl ⟨t, .stop (Json.step_done t), hend.1 hpos, _, if_pos hstop⟩
      · rw [hdone] at hstop
        refine Or.inr ⟨fun r hleads => ?_, _, if_neg (mt hdone.1 hstop)⟩
        cases (Json.leads_stop (Json.step_nil hstop (hend.1 hpos))).1 hleads
    · simp only [if_neg hpos]
      obtain ⟨b, u, hcons⟩ := List.exists_cons_of_ne_nil (mt hend.2 hpos)
      rw [← skipBlank, hcons] at hskip
      have hfollows : Follows data { s with pos := skip isBlank data s.pos } e k (b :: u) :=
        ⟨hskip, h.looks, h.opened⟩
      by_cases hstop : e = .after ∧ k = []
      · -- something comes after the value
        obtain ⟨rfl, rfl⟩ := hstop
        refine Or.inr ⟨fun r hleads => ?_, ?_⟩
        · rw [Json.leads_stop (Json.step_done t), Reading.done.injEq] at hleads
          rw [hleads, hcons]
          exact List.cons_ne_nil _ _
        · obtain ⟨hexpect, hstack⟩ := hdone.2 ⟨rfl, rfl⟩
          rw [act_done hexpect hstack]
          exact ⟨_, rfl⟩
      have hstep : Json.step maxDepth e k t = Json.move maxDepth e k _ _ :=
        Json.step_cons hstop hcons
      have hacts := act_follows hfollows hstop
      rw [← hstep] at hacts
      cases hmove : Json.step maxDepth e k t with
      | stop o =>
        rw [hmove] at hacts
        obtain ⟨message, hact⟩ := hacts
        refine Or.inr ⟨fun r hleads => ?_, message, by rw [hact]; rfl⟩
        exact absurd hmove (Json.exists_of_step (fun r ho => Json.move_ne_done
          (hstep.symm.trans (ho ▸ hmove))) hleads)
      | next e' k' t' =>
        rw [hmove] at hacts
        obtain ⟨s', hact, hfollows'⟩ := hacts
        rw [hact]
        -- each move takes an octet, so that the fuel lasts
        have hlt := Json.step_length hmove
        rcases ih hfollows' (by omega) with ⟨r, hleads, hblank, hout⟩ | ⟨hno, hout⟩
        · exact Or.inl ⟨r, (Json.leads_next hmove).2 hleads, hblank, hout⟩
        · exact Or.inr ⟨fun r hleads => hno r ((Json.leads_next hmove).1 hleads), hout⟩

/-! ### Trees -/

/-- A round at the first octet behind some blanks. -/
theorem Yields.round {w : Space} (h : At data pos (w.octets ++ b :: r)) (hb : isBlank b = false)
    (hact : Scanner.act data ⟨pos + w.octets.length, tokens, stack, expect⟩ = .ok s')
    (hrest : Yields data s' out) : Yields data ⟨pos, tokens, stack, expect⟩ out := by
  have hskip : skip isBlank data pos = pos + w.octets.length := by
    have hdrop : (w.octets ++ b :: r).dropWhile isBlank = b :: r := Json.skipBlank_space w hb
    have hat := h.skip isBlank
    rw [hdrop] at hat
    exact hat.unique h.append
  refine .next ?_ ?_ hrest
  · rw [hskip]
    exact h.append.lt.ne
  · rw [hskip]
    exact hact

/-- The first entry is read like any other one. -/
theorem yields_first {bracket : Bracket} (h : At data pos t)
    (ht : ∀ r, skipBlank t ≠ bracket.closing :: r)
    (hy : Yields data ⟨pos, tokens, stack, entryOf bracket⟩ out) :
    Yields data ⟨pos, tokens, stack, firstOf bracket⟩ out := by
  cases hy with
  | stop _ hexpect => cases bracket <;> cases hexpect
  | next hpos hact hrest =>
    refine .next hpos ?_ hrest
    have hskip := h.skip isBlank
    rw [← skipBlank] at hskip
    cases hcons : skipBlank t with
    | nil =>
      rw [hcons] at hskip
      exact absurd (Cursor.at_nil_iff.1 hskip) hpos
    | cons b r =>
      rw [hcons] at hskip
      show Scanner.act data ⟨skip isBlank data pos, tokens, stack, firstOf bracket⟩ = _
      rw [act_first bracket hskip, if_neg]
      · exact hact
      · rintro rfl
        exact ht r hcons

/-- Up to a value there is its head, which may put a key on the tape. -/
theorem yields_head {bracket : Bracket} (head : Head bracket) (h : At data pos (head.octets ++ r))
    (hy : ∀ (w : Space) (pos' : ℕ), At data pos' (w.octets ++ r) →
      pos' + w.octets.length = pos + head.octets.length →
      Yields data ⟨pos', tokens ++ head.tape pos tokens.length, stack, .value⟩ out) :
    Yields data ⟨pos, tokens, stack, entryOf bracket⟩ out := by
  cases head with
  | item before =>
    have hvalue := hy before pos h rfl
    rwa [Head.tape, List.append_nil] at hvalue
  | member before key colon after =>
    rw [Head.octets, List.append_assoc, List.append_assoc, List.append_assoc,
      List.cons_append] at h
    obtain ⟨u, hu⟩ := Json.head_quoted key
    have hkey : Json.readToken (key.text ++ (colon.octets ++ 58 :: (after.octets ++ r))) =
        .done (.string, colon.octets ++ 58 :: (after.octets ++ r)) :=
      Json.readToken_eq_done.2 ⟨_, rfl, key.valid, fun hkind => by cases hkind⟩
    have hafterKey := h.append.append
    rw [hu, List.cons_append] at hkey h
    obtain ⟨pos', hpos', hact⟩ := key_token tokens stack .key h.append hkey
    obtain rfl := hpos'.unique hafterKey
    have hcolon : Scanner.act data ⟨pos + before.octets.length + key.text.length +
        colon.octets.length, tokens ++ Head.tape pos tokens.length (.member before key colon after),
          stack, .colon⟩ =
        .ok ⟨pos + before.octets.length + key.text.length + colon.octets.length + 1,
          tokens ++ Head.tape pos tokens.length (.member before key colon after), stack,
            .value⟩ := by
      rw [Scanner.act]
      simp only [byte_cons hafterKey.append, ne_eq, not_true, if_false]
    refine .round h (by decide) hact (.round hafterKey (by decide) hcolon ?_)
    refine hy after _ hafterKey.append.cons ?_
    simp only [Head.octets, List.length_append, List.length_cons]
    omega

/-- A closing bracket sets where what it closes ends. -/
theorem yields_close {bracket : Bracket} {w : Space} {kind : Kind} {start stop next : ℕ}
    {inner : List Token} (hkind : kind = bracket.kind) {before : List Token}
    (h : At data pos (w.octets ++ bracket.closing :: r))
    (hexpect : expect = .after ∨ expect = firstOf bracket)
    (hy : Yields data ⟨pos + w.octets.length + 1, before ++ ⟨kind, start,
      pos + w.octets.length + 1, before.length + 1 + inner.length⟩ :: inner, stack, .after⟩ out) :
    Yields data ⟨pos, before ++ ⟨kind, start, stop, next⟩ :: inner, before.length :: stack, expect⟩
      out := by
  have hblank : isBlank bracket.closing = false := by cases bracket <;> decide
  refine .round h hblank ?_ hy
  have hget : (before ++ ⟨kind, start, stop, next⟩ :: inner)[before.length]? =
      some ⟨kind, start, stop, next⟩ := by simp
  have hclose (expect : Expect) : Scanner.close ⟨pos + w.octets.length,
      before ++ ⟨kind, start, stop, next⟩ :: inner, before.length :: stack, expect⟩ =
      .ok ⟨pos + w.octets.length + 1, before ++ ⟨kind, start, pos + w.octets.length + 1,
        before.length + 1 + inner.length⟩ :: inner, stack, .after⟩ := by
    rw [Scanner.close]
    simp only [hget]
    simp [Nat.add_assoc, Nat.add_comm 1]
  rcases hexpect with rfl | rfl
  · have hcomma : bracket.closing ≠ 44 := by cases bracket <;> decide
    rw [act_after h.append hget hkind, if_neg hcomma, if_pos rfl]
    exact hclose .after
  · rw [act_first bracket h.append, if_pos rfl]
    exact hclose _

mutual

/-- A scan of a value goes on after it, with its tape. -/
theorem yields_tree (tree : Tree) : ∀ {pos : ℕ} {r : Octets} {tokens : List Token}
    {stack : List ℕ} {out : List Token} (w : Space),
    At data pos (w.octets ++ (tree.octets ++ r)) → tree.depth + stack.length ≤ maxDepth →
      tree.Stops r → Yields data ⟨pos + w.octets.length + tree.octets.length,
        tokens ++ tree.tape (pos + w.octets.length) tokens.length, stack, .after⟩ out →
      Yields data ⟨pos, tokens, stack, .value⟩ out := by
  intro pos r tokens stack out w h hdepth hstops hy
  cases tree with
  | leaf token =>
    -- the first octet of a token opens no brackets
    obtain ⟨b, u, hu, hblank, hmark⟩ := Json.head_token token.valid
    have hread : Json.readToken (token.text ++ r) = .done (token.kind, r) :=
      Json.readToken_eq_done.2 ⟨_, rfl, token.valid, hstops⟩
    rw [Tree.octets] at h hy
    have hafter := h.append.append
    rw [hu, List.cons_append] at h hread
    have harray : b ≠ 91 := by
      rintro rfl
      exact hmark (by decide)
    have hobject : b ≠ 123 := by
      rintro rfl
      exact hmark (by decide)
    obtain ⟨pos', hpos', hact⟩ := value_token tokens stack .value h.append harray hobject
      hread
    obtain rfl := hpos'.unique hafter
    rw [Tree.tape] at hy
    exact .round h hblank hact hy
  | empty bracket space =>
    have hblank : isBlank bracket.opening = false := by cases bracket <;> decide
    rw [Tree.depth] at hdepth
    rw [Tree.octets, List.cons_append, List.append_assoc, List.singleton_append] at h
    refine .round h hblank (value_open bracket h.append (by omega)) ?_
    refine yields_close rfl h.append.cons (Or.inr rfl) ?_
    simp only [Tree.octets, Tree.tape, List.length_cons, List.length_append, List.length_nil,
      Nat.add_assoc, Nat.zero_add, Nat.add_zero, Nat.reduceAdd] at hy ⊢
    rw [show 1 + (space.octets.length + 1) = space.octets.length + 2 by omega]
    rw [show space.octets.length + 1 + 1 = space.octets.length + 2 by omega] at hy
    exact hy
  | node bracket entries =>
    have hblank : isBlank bracket.opening = false := by cases bracket <;> decide
    rw [Tree.depth] at hdepth
    rw [Tree.octets, List.cons_append, List.append_assoc, List.singleton_append] at h
    -- the bracket goes on the tape at once; its end is set where it is closed
    refine .round h hblank (value_open bracket h.append (by omega)) ?_
    refine yields_first h.append.cons (Json.skipBlank_entries entries _) ?_
    refine yields_entries entries rfl h.append.cons (by omega) ?_
    simp only [Tree.octets, Tree.tape, List.length_cons, List.length_append, List.length_nil,
      List.nil_append, Nat.add_assoc, Nat.zero_add, Nat.add_zero, Nat.reduceAdd] at hy ⊢
    rw [show 1 + (entries.octets.length + 1) = entries.octets.length + 2 by omega]
    exact hy

/-- A scan within brackets goes on after them. -/
theorem yields_entries {bracket : Bracket} (entries : Entries bracket) :
    ∀ {pos : ℕ} {r : Octets} {before inner : List Token} {kind : Kind} {start stop next : ℕ}
      {stack : List ℕ} {out : List Token}, kind = bracket.kind →
      At data pos (entries.octets ++ bracket.closing :: r) →
      entries.depth + (stack.length + 1) ≤ maxDepth →
      Yields data ⟨pos + entries.octets.length + 1, before ++ ⟨kind, start,
        pos + entries.octets.length + 1, before.length + 1 + (inner ++ entries.tape pos
          (before.length + 1 + inner.length)).length⟩ :: (inner ++ entries.tape pos
            (before.length + 1 + inner.length)), stack, .after⟩ out →
      Yields data ⟨pos, before ++ ⟨kind, start, stop, next⟩ :: inner, before.length :: stack,
        entryOf bracket⟩ out := by
  intro pos r before inner kind start stop next stack out hkind h hdepth hy
  have hclosing : bracket.closing ∈ [44, 93, 125] := by cases bracket <;> decide
  have hlength : (before ++ (⟨kind, start, stop, next⟩ : Token) :: inner).length =
      before.length + 1 + inner.length := by
    simp only [List.length_append, List.length_cons]
    omega
  cases entries with
  | last head value after =>
    rw [Entries.depth] at hdepth
    rw [Entries.octets, List.append_assoc, List.append_assoc] at h
    refine yields_head head h fun w pos' hpos' hlen => ?_
    refine yields_tree value w hpos' hdepth (Json.stops_space value after hclosing r) ?_
    have hafter := hpos'.append.append
    have hstop : pos + head.octets.length + value.octets.length + after.octets.length + 1 =
        pos + (Entries.last head value after).octets.length + 1 := by
      simp only [Entries.octets, List.length_append]
      omega
    rw [hlen] at hafter ⊢
    rw [hlength, List.length_append, hlength, List.append_assoc, List.append_assoc,
      List.cons_append]
    refine yields_close hkind hafter (Or.inl rfl) ?_
    rw [hstop]
    exact hy
  | more head value after rest =>
    rw [Entries.depth] at hdepth
    rw [Entries.octets, List.append_assoc, List.append_assoc, List.append_assoc,
      List.cons_append] at h
    refine yields_head head h fun w pos' hpos' hlen => ?_
    refine yields_tree value w hpos' ?_ (Json.stops_space value after (by simp) _) ?_
    · rw [List.length_cons]
      omega
    have hafter := hpos'.append.append
    have hpos : pos + head.octets.length + value.octets.length + after.octets.length + 1 =
        pos + (head.octets.length + (value.octets.length + (after.octets.length + 1))) := by
      omega
    have hstop : pos + (head.octets.length + (value.octets.length + (after.octets.length + 1))) +
        rest.octets.length + 1 = pos + (Entries.more head value after rest).octets.length + 1 := by
      simp only [Entries.octets, List.length_append, List.length_cons]
      omega
    rw [hlen] at hafter ⊢
    rw [hlength, List.length_append, hlength, List.append_assoc, List.append_assoc,
      List.cons_append]
    have hget : (before ++ (⟨kind, start, stop, next⟩ : Token) :: (inner ++ (head.tape pos
        (before.length + 1 + inner.length) ++ value.tape (pos + head.octets.length)
          (before.length + 1 + inner.length + (head.tape pos (before.length + 1 +
            inner.length)).length))))[before.length]? = some ⟨kind, start, stop, next⟩ := by simp
    refine .round hafter (by decide) ((act_after hafter.append hget hkind).trans (if_pos rfl)) ?_
    rw [hpos]
    refine yields_entries rest hkind (hpos ▸ hafter.append.cons) (by omega) ?_
    rw [hstop]
    simp only [Entries.tape, List.length_append, List.append_assoc, Nat.add_assoc] at hy ⊢
    exact hy

end

theorem follows_start (data : Octets) : Follows data ⟨0, [], [], .value⟩ .value [] data :=
  ⟨Cursor.at_zero data, .value [], .nil⟩

theorem blank_of_skipBlank (h : skipBlank t = []) : Blank t := by
  rwa [skipBlank, List.dropWhile_eq_nil_iff] at h

/-- On a text of one value between blanks the tape of its tree is left. -/
theorem yields_text (w : Space) (tree : Tree) (w' : Space)
    (hdata : data = w.octets ++ (tree.octets ++ w'.octets)) (hdepth : tree.depth ≤ maxDepth)
    (hstops : tree.Stops w'.octets) :
    Yields data ⟨0, [], [], .value⟩ (tree.tape w.octets.length 0) := by
  have hat : At data 0 (w.octets ++ (tree.octets ++ w'.octets)) := hdata ▸ Cursor.at_zero data
  refine yields_tree tree w hat (by simpa using hdepth) hstops ?_
  have hskip := hat.append.append.skip isBlank
  rw [List.dropWhile_eq_nil_iff.2 w'.blank, Cursor.at_nil_iff] at hskip
  have hstop : Yields data ⟨0 + w.octets.length + tree.octets.length,
      [] ++ tree.tape (0 + w.octets.length) ([] : List Token).length, [], .after⟩
      ([] ++ tree.tape (0 + w.octets.length) ([] : List Token).length) := .stop hskip rfl rfl
  simpa using hstop

end Scan

/-- What the scan from the start leads to. -/
theorem scan_follows (data : Octets) :
    (∃ r, Json.Leads maxDepth .value [] data (.done r) ∧ skipBlank r = [] ∧
      ∃ tape, scan data = .ok tape) ∨
    (∀ r, Json.Leads maxDepth .value [] data (.done r) → skipBlank r ≠ []) ∧
      ∃ message, scan data = .error (.error message) :=
  scanLoop_follows (follows_start data) (Nat.lt_succ_self data.length)

theorem scan_ends (data : Octets) :
    (∃ tape, scan data = .ok tape) ∨ ∃ message, scan data = .error (.error message) := by
  rcases scan_follows data with ⟨r, -, -, hout⟩ | ⟨-, hmessage⟩
  · exact Or.inl hout
  · exact Or.inr hmessage

theorem scan_eq_ok_iff (data : Octets) (tape : List Token) :
    scan data = .ok tape ↔ ∃ (w : Space) (tree : Tree) (w' : Space),
      data = w.octets ++ (tree.octets ++ w'.octets) ∧ tree.depth ≤ maxDepth ∧
        tape = tree.tape w.octets.length 0 := by
  constructor
  · intro h
    rcases scan_follows data with ⟨r, hleads, hblank, -⟩ | ⟨-, message, hmessage⟩
    · obtain ⟨w, tree, hdata, hdepth, hstops⟩ := Json.leads_done_iff.1 hleads
      refine ⟨w, tree, ⟨r, blank_of_skipBlank hblank⟩, hdata, hdepth, ?_⟩
      exact (yields_of_scanLoop h).unique
        (yields_text w tree ⟨r, blank_of_skipBlank hblank⟩ hdata hdepth hstops)
    · rw [hmessage] at h
      cases h
  · rintro ⟨w, tree, w', hdata, hdepth, rfl⟩
    have hstops : tree.Stops w'.octets := by
      cases tree with
      | leaf token =>
        refine Json.stops_of_head fun b hb => ?_
        have hblank := w'.blank b (List.mem_of_mem_head? hb)
        rw [isBlank, decide_eq_true_eq] at hblank
        rcases hblank with rfl | rfl | rfl | rfl <;> rfl
      | empty bracket space => trivial
      | node bracket entries => trivial
    rcases scan_follows data with ⟨r, -, -, tape, htape⟩ | ⟨hno, -⟩
    · have hyields := yields_of_scanLoop htape
      rw [htape, (yields_text w tree w' hdata hdepth hstops).unique hyields]
    · have hblank : skipBlank w'.octets = [] := List.dropWhile_eq_nil_iff.2 w'.blank
      exact absurd hblank (hno _ (Json.leads_done_iff.2 ⟨w, tree, hdata, hdepth, hstops⟩))

/-- The scanner ends on every input, with a tape or with a message.  It takes the texts of one value
between blanks whose brackets nest at most ten thousand deep, and the tape is that of the value. -/
theorem scan_reads (data : Octets) :
    ((∃ tape, scan data = .ok tape) ∨ ∃ message, scan data = .error (.error message)) ∧
      ∀ tape, scan data = .ok tape ↔ ∃ (w : Space) (tree : Tree) (w' : Space),
        data = w.octets ++ (tree.octets ++ w'.octets) ∧ tree.depth ≤ maxDepth ∧
          tape = tree.tape w.octets.length 0 :=
  ⟨scan_ends data, scan_eq_ok_iff data⟩

end EraseMe.Migration
