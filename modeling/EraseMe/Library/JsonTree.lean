import EraseMe.Library.JsonTokens

/-!
# JSON texts as trees

A tree keeps every octet of a JSON text (`Tree.octets`), blanks included, and cannot be anything
but well-formed: its tokens and blanks come with their proofs, and only objects have keys.
`Tree.tape` lists the values and keys of a text in the order they come in, each with where it starts
and ends and with the place of what comes after it and all within it.
-/

namespace Json

/-- The kinds of containers. -/
inductive Bracket
  | array
  | object
  deriving DecidableEq, Repr

namespace Bracket

/-- The octet that opens. -/
def opening : Bracket → UInt8
  | .array => 91
  | .object => 123

/-- The octet that closes. -/
def closing : Bracket → UInt8
  | .array => 93
  | .object => 125

/-- The kind of its token. -/
def kind : Bracket → Kind
  | .array => .array
  | .object => .object

end Bracket

/-- Blanks. -/
structure Space where
  octets : Octets
  blank : Blank octets

/-- A string, a number or a word. -/
structure Leaf where
  kind : Kind
  text : Octets
  valid : TokenText kind text

/-- A string with its quotes. -/
structure Quoted where
  text : Octets
  valid : TokenText .string text

/-- What comes before a value within brackets. -/
inductive Head : Bracket → Type
  | item (before : Space) : Head .array
  | member (before : Space) (key : Quoted) (colon after : Space) : Head .object

mutual

/-- A value with all its blanks. -/
inductive Tree
  | leaf (token : Leaf)
  | empty (bracket : Bracket) (space : Space)
  | node (bracket : Bracket) (entries : Entries bracket)

/-- The values within brackets, one at least, with what comes before and after each. -/
inductive Entries : Bracket → Type
  | last {bracket : Bracket} (head : Head bracket) (value : Tree) (after : Space) :
      Entries bracket
  | more {bracket : Bracket} (head : Head bracket) (value : Tree) (after : Space)
      (rest : Entries bracket) : Entries bracket

end

/-- What stands before a value. -/
def Head.octets {bracket : Bracket} : Head bracket → Octets
  | .item before => before.octets
  | .member before key colon after =>
      before.octets ++ (key.text ++ (colon.octets ++ 58 :: after.octets))

mutual

/-- The text of a value. -/
def Tree.octets : Tree → Octets
  | .leaf token => token.text
  | .empty bracket space => bracket.opening :: (space.octets ++ [bracket.closing])
  | .node bracket entries => bracket.opening :: (entries.octets ++ [bracket.closing])

/-- The text of the entries. -/
def Entries.octets {bracket : Bracket} : Entries bracket → Octets
  | .last head value after => head.octets ++ (value.octets ++ after.octets)
  | .more head value after rest =>
      head.octets ++ (value.octets ++ (after.octets ++ 44 :: rest.octets))

end

mutual

/-- How many brackets are open at most. -/
def Tree.depth : Tree → ℕ
  | .leaf _ => 0
  | .empty _ _ => 1
  | .node _ entries => entries.depth + 1

/-- The deepest entry. -/
def Entries.depth {bracket : Bracket} : Entries bracket → ℕ
  | .last _ value _ => value.depth
  | .more _ value _ rest => max value.depth rest.depth

end

/-- A number is not gone on with by what follows it. -/
def Tree.Stops : Tree → Octets → Prop
  | .leaf token, r => Json.Stops token.kind token.text r
  | _, _ => True

/-! ### The tape -/

/-- A token with its bounds. -/
structure Token where
  kind : Kind
  start : ℕ
  stop : ℕ
  next : ℕ
  deriving DecidableEq, Repr

/-- The key, if there is one. -/
def Head.tape {bracket : Bracket} (pos index : ℕ) : Head bracket → List Token
  | .item _ => []
  | .member before key _ _ =>
      [⟨.string, pos + before.octets.length, pos + before.octets.length + key.text.length,
        index + 1⟩]

mutual

/-- The tokens of a text that starts at a position, the first of which has an index. -/
def Tree.tape : ℕ → ℕ → Tree → List Token
  | pos, index, .leaf token => [⟨token.kind, pos, pos + token.text.length, index + 1⟩]
  | pos, index, .empty bracket space =>
      [⟨bracket.kind, pos, pos + (space.octets.length + 2), index + 1⟩]
  | pos, index, .node bracket entries =>
      let inner := entries.tape (pos + 1) (index + 1)
      ⟨bracket.kind, pos, pos + (entries.octets.length + 2), index + 1 + inner.length⟩ :: inner

/-- The tokens of the entries. -/
def Entries.tape {bracket : Bracket} : ℕ → ℕ → Entries bracket → List Token
  | pos, index, .last head value _ =>
      let key := head.tape pos index
      key ++ value.tape (pos + head.octets.length) (index + key.length)
  | pos, index, .more head value after rest =>
      let key := head.tape pos index
      let inner := value.tape (pos + head.octets.length) (index + key.length)
      key ++ (inner ++ rest.tape
        (pos + (head.octets.length + (value.octets.length + (after.octets.length + 1))))
        (index + (key.length + inner.length)))

end

/-! ### How texts start -/

theorem start_ne {b : UInt8} {kind : Kind} {q : Mode} (h : start b = some (kind, q)) :
    isBlank b = false ∧ b ∉ [44, 58, 91, 93, 123, 125] := by
  have hdigit : isDigit b = true → isBlank b = false ∧ b ∉ [44, 58, 91, 93, 123, 125] := by
    intro hb
    have hne := fun {c : UInt8} (hc : isDigit c = false) => isDigit_ne hb hc
    refine ⟨?_, ?_⟩
    · rw [isBlank, decide_eq_false_iff_not]
      rintro (rfl | rfl | rfl | rfl) <;> cases hb
    · simp only [List.mem_cons, List.not_mem_nil, or_false]
      rintro (rfl | rfl | rfl | rfl | rfl | rfl) <;> cases hb
  rcases start_cases h with ⟨rfl, -⟩ | ⟨rfl, -⟩ | ⟨rfl, -⟩ | ⟨hb, -⟩ | ⟨rfl, -⟩ | ⟨rfl, -⟩ |
    ⟨rfl, -⟩
  · decide
  · decide
  · decide
  · exact hdigit hb
  · decide
  · decide
  · decide

theorem head_token {kind : Kind} {s : Octets} (h : TokenText kind s) :
    ∃ b t, s = b :: t ∧ isBlank b = false ∧ b ∉ [44, 58, 91, 93, 123, 125] := by
  obtain ⟨b, t, q, rfl, hq, -⟩ := tokenText_iff.1 h
  exact ⟨b, t, rfl, start_ne hq⟩

theorem head_tree (t : Tree) : ∃ b s, t.octets = b :: s ∧ isBlank b = false ∧ b ≠ 93 ∧ b ≠ 125 := by
  cases t with
  | leaf token =>
    obtain ⟨b, s, hs, hblank, hmark⟩ := head_token token.valid
    simp only [List.mem_cons, List.not_mem_nil, or_false, not_or] at hmark
    exact ⟨b, s, hs, hblank, hmark.2.2.2.1, hmark.2.2.2.2.2⟩
  | empty bracket space =>
    rw [Tree.octets]
    cases bracket <;> exact ⟨_, _, rfl, by decide, by decide, by decide⟩
  | node bracket entries =>
    rw [Tree.octets]
    cases bracket <;> exact ⟨_, _, rfl, by decide, by decide, by decide⟩

theorem head_quoted (key : Quoted) : ∃ s, key.text = 34 :: s := by
  obtain ⟨text, valid⟩ := key
  cases valid
  exact ⟨_, rfl⟩

end Json
