import EraseMe.Email.Replies

/-!
# Waiting for a marked line

The loops of a session read lines until one starts with the tag.  `Awaits` says what the body of
such a loop does with a line; the lemmas say how the loop runs over lines without the mark, at a
line with it and at the end of the stream.
-/

namespace EraseMe.Email.Imap

open Wire Wire.Talk

/-! ### One line -/

/-- A line as text. -/
def lineText (line : Bytes) : Except Failure (List Char) :=
  match Utf8.decode line with
  | some text => .ok (Text.trimLineEnd text)
  | none => .error (readFailure "stream did not contain valid UTF-8")

/-- What is to come after the next line. -/
def dropLine (s : Bytes) : Bytes := s.drop (upTo none s).length

theorem upTo_of_not_mem {s : Bytes} (h : 10 ∉ s) : upTo none s = s := by
  induction s with
  | nil => rfl
  | cons b s ih =>
    rw [List.mem_cons, not_or] at h
    simp [upTo, Ne.symm h.1, ih h.2]

theorem upTo_line {l : Bytes} (h : 10 ∉ l) (s : Bytes) :
    upTo none (l ++ 10 :: s) = l ++ [10] := by
  induction l with
  | nil => simp [upTo]
  | cons b l ih =>
    rw [List.mem_cons, not_or] at h
    simp [upTo, Ne.symm h.1, ih h.2]

theorem dropLine_line {l : Bytes} (h : 10 ∉ l) (s : Bytes) : dropLine (l ++ 10 :: s) = s := by
  unfold dropLine
  rw [upTo_line h]
  simp

theorem readBytes_line {s : Bytes} {ending : Option String} (h : ending = none ∨ 10 ∈ s) :
    readBytes none ending s = (.ok (upTo none s), dropLine s) := by
  unfold readBytes enough dropLine
  by_cases hs : 10 ∈ s
  · simp [hs]
  · have hending : ending = none := h.resolve_right hs
    simp [hs, hending, upTo_of_not_mem hs]

/-- Reading a line, of a stream that is closed without an error. -/
theorem run_readLine {c : Conn} (h : c.reader.ending = none ∨ 10 ∈ c.reader.bytes) :
    ∃ reader : Reader, reader.bytes = dropLine c.reader.bytes ∧
      reader.ending = c.reader.ending ∧
      readLine c = ((lineText (upTo none c.reader.bytes), { c with reader }), []) := by
  obtain ⟨hresult, hbytes, hending⟩ := readUntil_eq none c.reader
  rw [readBytes_line h] at hresult hbytes
  refine ⟨_, hbytes, hending, ?_⟩
  unfold readLine receive lineOf Reader.readLine lineText
  generalize c.reader.readUntil none = run at hresult
  obtain ⟨r, reader⟩ := run
  simp only at hresult
  subst hresult
  simp only
  cases Utf8.decode (upTo none c.reader.bytes) with
  | none => rfl
  | some text => rfl

/-- At the end of a stream that ends with an error there is no line. -/
theorem run_readLine_error {c : Conn} {error : String} (hending : c.reader.ending = some error)
    (h : 10 ∉ c.reader.bytes) : ∃ e, (readLine c).1.1 = .error e := by
  obtain ⟨hresult, -, -⟩ := readUntil_eq none c.reader
  unfold readBytes enough at hresult
  simp only [Option.any_none, h, decide_false, Bool.or_self, Bool.false_eq_true, if_false,
    hending] at hresult
  refine ⟨readFailure error, ?_⟩
  unfold readLine receive lineOf Reader.readLine
  generalize c.reader.readUntil none = run at hresult
  obtain ⟨r, reader⟩ := run
  simp only at hresult
  subst hresult
  rfl

theorem run_readOctets {c : Conn} (h : c.reader.ending = none) :
    ∃ reader : Reader, reader.bytes = dropLine c.reader.bytes ∧ reader.ending = none ∧
      readOctets c = ((.ok (upTo none c.reader.bytes), { c with reader }), []) := by
  obtain ⟨hresult, hbytes, hending⟩ := readUntil_eq none c.reader
  rw [readBytes_line (Or.inl h)] at hresult hbytes
  refine ⟨_, hbytes, hending.trans h, ?_⟩
  unfold readOctets receive octetsOf
  generalize c.reader.readUntil none = run at hresult
  obtain ⟨r, reader⟩ := run
  simp only at hresult
  subst hresult
  rfl

/-! ### The mark -/

/-- The octets of a mark. -/
def octets (mark : List Char) : Bytes := mark.map Utf8.octet

/-- Plain ASCII, without line ends. -/
def IsMark (mark : List Char) : Prop := ∀ c ∈ mark, c.toNat < 128 ∧ Text.isLineEnd c = false

theorem prefix_trimLineEnd {mark text : List Char} (h : IsMark mark) :
    mark <+: Text.trimLineEnd text ↔ mark <+: text := by
  show mark <+: text.rdropWhile Text.isLineEnd ↔ mark <+: text
  constructor
  · exact fun hprefix => hprefix.trans (List.rdropWhile_prefix _ _)
  · rintro ⟨rest, rfl⟩
    induction rest using List.reverseRecOn with
    | nil =>
      rw [List.append_nil, List.rdropWhile_eq_self_iff.2]
      intro hne
      rw [(h _ (List.getLast_mem hne)).2]
      simp
    | append_singleton rest c ih =>
      rw [← List.append_assoc, List.rdropWhile_concat]
      split_ifs
      · exact ih
      · rw [List.append_assoc]
        exact List.prefix_append _ _

/-- A line shows its mark in its octets. -/
theorem prefix_lineText {mark text : List Char} {line : Bytes} (h : IsMark mark)
    (htext : lineText line = .ok text) : mark <+: text ↔ octets mark <+: line := by
  unfold lineText at htext
  cases hdecode : Utf8.decode line with
  | none =>
    rw [hdecode] at htext
    cases htext
  | some decoded =>
    rw [hdecode] at htext
    cases htext
    rw [prefix_trimLineEnd h]
    exact Utf8.prefix_iff_of_decodeAux hdecode fun c hc => (h c hc).1

/-- A mark does not show up in the middle of one. -/
theorem not_prefix_append {a : UInt8} {mark r s : Bytes} (ha : a ∉ mark) (hr : r ≠ [])
    (h : ¬ a :: mark <+: r) : ¬ a :: mark <+: r ++ (a :: mark ++ s) := by
  rintro ⟨t, ht⟩
  rcases List.append_eq_append_iff.1 ht with ⟨w, hrw, -⟩ | ⟨w, hmark, hrest⟩
  · exact h ⟨w, hrw.symm⟩
  · cases w with
    | nil =>
      rw [List.append_nil] at hmark
      exact h ⟨[], by rw [List.append_nil, hmark]⟩
    | cons b w =>
      cases r with
      | nil => exact hr rfl
      | cons d r =>
        rw [List.cons_append, List.cons_append, List.cons.injEq] at hrest
        rw [List.cons_append, List.cons.injEq] at hmark
        apply ha
        rw [hmark.2, ← hrest.1]
        simp

/-! ### The loop -/

/-- The body of a waiting loop takes a line without the mark and goes on, and at a line with the mark
it ends the loop. -/
structure Awaits {α β : Type} (mark : List Char) (answer : α → List Char → Talk Failure (α ⊕ β)) :
    Prop where
  isMark : IsMark mark
  skips : ∀ a {line : List Char} {c : Conn}, ¬ mark <+: line → c.broken = none →
    ∃ a', (answer a line c).1 = (.ok (.inl a'), c)
  answers : ∀ a {line : List Char} {c : Conn}, mark <+: line →
    (answer a line c).1.1 ≠ .error .diverged ∧ ∀ a', (answer a line c).1.1 ≠ .ok (.inl a')

/-- The loop with some fuel. -/
abbrev rounds {α β : Type} (answer : α → List Char → Talk Failure (α ⊕ β)) (fuel : ℕ) (a : α) :
    Talk Failure β := loop .diverged (round answer) fuel a

theorem repeatedly_round {α β : Type} (answer : α → List Char → Talk Failure (α ⊕ β)) (a : α)
    (c : Conn) :
    (repeatedly (round answer) a c).1 = (rounds answer (c.reader.bytes.length + 1) a c).1 := rfl

theorem lineText_ne_diverged (line : Bytes) : lineText line ≠ .error .diverged := by
  unfold lineText
  cases Utf8.decode line with
  | none => simp [readFailure]
  | some text => simp

section Loop

variable {α β : Type} {mark : List Char} {answer : α → List Char → Talk Failure (α ⊕ β)}
  {c : Conn}

theorem run_round (answer : α → List Char → Talk Failure (α ⊕ β)) {c : Conn}
    (h : c.reader.ending = none ∨ 10 ∈ c.reader.bytes) (a : α) :
    ∃ reader : Reader, reader.bytes = dropLine c.reader.bytes ∧
      reader.ending = c.reader.ending ∧
      (round answer a c).1 = match lineText (upTo none c.reader.bytes) with
        | .ok text => (answer a text { c with reader }).1
        | .error e => (.error e, { c with reader }) := by
  obtain ⟨reader, hbytes, hending, hrun⟩ := run_readLine h
  refine ⟨reader, hbytes, hending, ?_⟩
  unfold round
  rw [run_bind, hrun]
  cases lineText (upTo none c.reader.bytes) with
  | ok text => rfl
  | error e => rfl

/-- A line without the mark is passed over. -/
theorem rounds_skip (hw : Awaits mark answer) (hbroken : c.broken = none)
    (h : c.reader.ending = none ∨ 10 ∈ c.reader.bytes) {text : List Char}
    (htext : lineText (upTo none c.reader.bytes) = .ok text) (hmark : ¬ mark <+: text) (a : α) :
    ∃ (a' : α) (reader : Reader), reader.bytes = dropLine c.reader.bytes ∧
      reader.ending = c.reader.ending ∧
      ∀ fuel, (rounds answer (fuel + 1) a c).1 = (rounds answer fuel a' { c with reader }).1 := by
  obtain ⟨reader, hbytes, hending, hrun⟩ := run_round answer h a
  rw [htext] at hrun
  obtain ⟨a', hanswer⟩ := hw.skips a (c := { c with reader }) hmark hbroken
  exact ⟨a', reader, hbytes, hending, loop_inl (hrun.trans hanswer)⟩

/-- At the end of the stream the loop goes on for ever. -/
theorem rounds_end (hw : Awaits mark answer) (hne : mark ≠ []) (hbroken : c.broken = none)
    (hbytes : c.reader.bytes = []) (hending : c.reader.ending = none) (fuel : ℕ) (a : α) :
    (rounds answer fuel a c).1.1 = .error .diverged := by
  induction fuel generalizing a c with
  | zero => rfl
  | succ fuel ih =>
    have htext : lineText (upTo none c.reader.bytes) = .ok [] := by
      rw [hbytes]
      rfl
    obtain ⟨a', reader, hbytes', hending', hrun⟩ := rounds_skip hw hbroken (Or.inl hending) htext
      (by simpa using hne) a
    rw [hrun]
    apply ih
    · exact hbroken
    · show reader.bytes = []
      rw [hbytes', hbytes]
      rfl
    · exact hending'.trans hending

/-- A line that is no text, or has the mark, ends the loop. -/
theorem rounds_answer (hw : Awaits mark answer)
    (h : c.reader.ending = none ∨ 10 ∈ c.reader.bytes)
    (hline : ∀ text, lineText (upTo none c.reader.bytes) = .ok text → mark <+: text) (fuel : ℕ)
    (a : α) : (rounds answer (fuel + 1) a c).1.1 ≠ .error .diverged := by
  obtain ⟨reader, -, -, hrun⟩ := run_round answer h a
  cases htext : lineText (upTo none c.reader.bytes) with
  | error e =>
    rw [htext] at hrun
    rw [rounds, loop_error hrun]
    rintro ⟨⟩
    exact lineText_ne_diverged _ htext
  | ok text =>
    rw [htext] at hrun
    simp only at hrun
    obtain ⟨hne, hinl⟩ := hw.answers a (c := { c with reader }) (hline text htext)
    rcases hanswer : (answer a text { c with reader }).1 with ⟨_ | _ | b, c'⟩
    · rw [hanswer] at hrun hne
      rw [rounds, loop_error hrun]
      simpa using hne
    · rw [hanswer] at hinl
      exact absurd rfl (hinl _)
    · rw [hanswer] at hrun
      rw [rounds, loop_inr hrun]
      simp

/-! ### Two runs of the loop -/

/-- Complete lines of text without the mark. -/
inductive PassedOver (mark : List Char) : Bytes → Prop
  | nil : PassedOver mark []
  | line {l s : Bytes} {text : List Char} (hline : 10 ∉ l) (htext : lineText (l ++ [10]) = .ok text)
      (hmark : ¬ mark <+: text) (hs : PassedOver mark s) : PassedOver mark (l ++ 10 :: s)

/-- Such lines are all passed over, or there is a first part that is none. -/
theorem passedOver_or (mark : List Char) (b : Bytes) :
    PassedOver mark b ∨ ∃ b' r, b = b' ++ r ∧ PassedOver mark b' ∧ r ≠ [] ∧
      (10 ∈ r → ∀ text, lineText (upTo none r) = .ok text → mark <+: text) := by
  induction hn : b.length using Nat.strong_induction_on generalizing b with
  | _ n ih =>
    by_cases hb : b = []
    · rw [hb]
      exact Or.inl .nil
    by_cases h10 : 10 ∈ b
    · obtain ⟨l, s, rfl, hl⟩ := List.eq_append_cons_of_mem h10
      by_cases hstuck : ∀ text, lineText (l ++ [10]) = .ok text → mark <+: text
      · refine Or.inr ⟨[], _, rfl, .nil, hb, fun _ => ?_⟩
        show ∀ text, lineText (upTo none (l ++ 10 :: s)) = .ok text → mark <+: text
        rw [upTo_line hl]
        exact hstuck
      · push Not at hstuck
        obtain ⟨text, htext, hmark⟩ := hstuck
        rcases ih s.length (by simp at hn; omega) s rfl with hs | ⟨b', r, rfl, hb', hr⟩
        · exact Or.inl (.line hl htext hmark hs)
        · exact Or.inr ⟨l ++ 10 :: b', r, by simp, .line hl htext hmark hb', hr⟩
    · exact Or.inr ⟨[], b, rfl, .nil, hb, fun h => absurd h h10⟩

theorem length_dropLine_lt {s : Bytes} (h : s ≠ []) : (dropLine s).length < s.length := by
  cases s with
  | nil => exact absurd rfl h
  | cons b s =>
    unfold dropLine upTo
    split_ifs <;> simp <;> omega

end Loop

section Wait

variable {mark : List Char} {answer : Unit → List Char → Talk Failure (Unit ⊕ Unit)}

/-- Lines that are passed over cost fuel, and nothing else. -/
theorem rounds_passedOver (hw : Awaits mark answer) {b : Bytes} (hb : PassedOver mark b) {c : Conn}
    {t : Bytes} (hbytes : c.reader.bytes = b ++ t) (hbroken : c.broken = none) :
    ∃ reader : Reader, reader.bytes = t ∧ reader.ending = c.reader.ending ∧ ∃ n ≤ b.length,
      ∀ fuel, (rounds answer (fuel + n) () c).1 = (rounds answer fuel () { c with reader }).1 := by
  induction hb generalizing c with
  | nil => exact ⟨c.reader, hbytes, rfl, 0, le_rfl, fun _ => rfl⟩
  | line hl htext hmark hs ih =>
    rename_i l s text
    rw [List.append_assoc, List.cons_append] at hbytes
    have hread : c.reader.ending = none ∨ 10 ∈ c.reader.bytes := by
      rw [hbytes]
      simp
    obtain ⟨_, reader, hrest, hending, hskip⟩ := rounds_skip hw hbroken hread
      (by rw [hbytes, upTo_line hl]; exact htext) hmark ()
    rw [hbytes, dropLine_line hl] at hrest
    obtain ⟨reader', hbytes', hending', n, hn, hrun⟩ := ih (c := { c with reader }) hrest hbroken
    refine ⟨reader', hbytes', hending'.trans hending, n + 1, ?_, fun fuel => ?_⟩
    · simp
      omega
    · rw [← Nat.add_assoc, hskip, hrun]

/-- Where the loop goes on, it has read a line and nothing else. -/
theorem inl_cases (hw : Awaits mark answer) {c d : Conn} (hbroken : c.broken = none)
    (h : (round answer () c).1 = (.ok (.inl ()), d)) :
    d.broken = none ∧ d.reader.bytes = dropLine c.reader.bytes ∧
      d.reader.ending = c.reader.ending ∧ (c.reader.ending = none ∨ 10 ∈ c.reader.bytes) := by
  by_cases hread : c.reader.ending = none ∨ 10 ∈ c.reader.bytes
  · obtain ⟨reader, hbytes, hending, hrun⟩ := run_round answer hread ()
    rw [hrun] at h
    cases htext : lineText (upTo none c.reader.bytes) with
    | error e =>
      rw [htext] at h
      cases h
    | ok text =>
      rw [htext] at h
      simp only at h
      by_cases hmark : mark <+: text
      · exact absurd (congrArg Prod.fst h) ((hw.answers () hmark).2 ())
      · obtain ⟨_, hskip⟩ := hw.skips () (c := { c with reader }) hmark hbroken
        rw [h] at hskip
        cases hskip
        exact ⟨hbroken, hbytes, hending, hread⟩
  · rw [not_or, ← ne_eq, Option.ne_none_iff_exists'] at hread
    obtain ⟨⟨error, herror⟩, h10⟩ := hread
    obtain ⟨e, he⟩ := run_readLine_error herror h10
    unfold round at h
    rw [run_bind] at h
    generalize readLine c = run at h he
    obtain ⟨⟨r, c'⟩, log⟩ := run
    simp only at he
    subst he
    cases h

/-- With fuel for all the bytes, the loop depends on the bytes only. -/
theorem rounds_agree (hw : Awaits mark answer) (hne : mark ≠ [])
    (hrespects : ∀ line, Respects Reader.Alike (answer () line)) {c c' : Conn}
    (halike : c.Alike Reader.Alike c') (hbroken : c.broken = none) {fuel fuel' : ℕ}
    (hfuel : c.reader.bytes.length < fuel) (hfuel' : c.reader.bytes.length < fuel') :
    Agree (rounds answer fuel () c).1 (rounds answer fuel' () c').1 := by
  induction hn : c.reader.bytes.length using Nat.strong_induction_on
    generalizing c c' fuel fuel' with
  | _ n ih =>
    obtain ⟨f, rfl⟩ : ∃ f, fuel = f + 1 := ⟨fuel - 1, by omega⟩
    obtain ⟨f', rfl⟩ : ∃ f', fuel' = f' + 1 := ⟨fuel' - 1, by omega⟩
    have hround : Respects Reader.Alike (round answer ()) :=
      Respects.bind (respects_readLine readable_alike) hrespects
    obtain ⟨hresult, hafter, -⟩ := hround c c' halike
    rcases hrun : (round answer () c).1 with ⟨e | _ | b, d⟩
    all_goals
      rcases hrun' : (round answer () c').1 with ⟨r', d'⟩
      rw [hrun, hrun'] at hresult hafter
      simp only at hresult hafter
      subst hresult
    · rw [rounds, rounds, loop_error hrun, loop_error hrun']
      exact ⟨rfl, fun _ h => absurd h (by simp)⟩
    · -- the loop goes on, on a shorter stream or at its end
      obtain ⟨hd, hdbytes, hdending, hread⟩ := inl_cases hw hbroken hrun
      rw [rounds, rounds, loop_inl hrun, loop_inl hrun']
      by_cases hempty : c.reader.bytes = []
      · have hnil : d.reader.bytes = [] := by
          rw [hdbytes, hempty]
          rfl
        have hnone : d.reader.ending = none := by
          rw [hdending]
          exact hread.resolve_right (by simp [hempty])
        have hleft := rounds_end hw hne hd hnil hnone f ()
        have hright := rounds_end hw hne (hafter.broken.symm.trans hd)
          (hafter.reader.1.symm.trans hnil) (hafter.reader.2.symm.trans hnone) f' ()
        refine ⟨hleft.trans hright.symm, fun _ h => ?_⟩
        rw [hleft] at h
        cases h
      · have hlt := length_dropLine_lt hempty
        rw [← hdbytes] at hlt
        exact ih d.reader.bytes.length (by omega) hafter hd (by omega) (by omega) rfl
    · rw [rounds, rounds, loop_inr hrun, loop_inr hrun']
      exact ⟨rfl, fun _ _ => hafter⟩

/-- Lines that are passed over do not change what the loop returns. -/
theorem repeatedly_agree (hw : Awaits mark answer) (hne : mark ≠ [])
    (hrespects : ∀ line, Respects Reader.Alike (answer () line)) {b : Bytes}
    (hb : PassedOver mark b) {c c' : Conn} (hbytes : c.reader.bytes = b ++ c'.reader.bytes)
    (hending : c.reader.ending = c'.reader.ending) (hbroken : c.broken = none)
    (hbroken' : c'.broken = none) (hprotected : c.isProtected = c'.isProtected) :
    Agree (repeatedly (round answer) () c).1 (repeatedly (round answer) () c').1 := by
  obtain ⟨reader, hrest, hending', n, hn, hrun⟩ := rounds_passedOver hw hb hbytes hbroken
  obtain ⟨fuel, hfuel, hlength⟩ : ∃ fuel, c'.reader.bytes.length < fuel ∧
      c.reader.bytes.length + 1 = fuel + n := by
    refine ⟨c.reader.bytes.length + 1 - n, ?_, ?_⟩
    · rw [hbytes, List.length_append]
      omega
    · rw [hbytes, List.length_append]
      omega
  rw [repeatedly_round, repeatedly_round, hlength, hrun]
  have halike : Conn.Alike Reader.Alike { c with reader } c' :=
    ⟨⟨hrest, hending'.trans hending⟩, hbroken.trans hbroken'.symm, hprotected⟩
  have hreader : ({ c with reader } : Conn).reader.bytes.length = c'.reader.bytes.length :=
    congrArg List.length hrest
  exact rounds_agree hw hne hrespects halike hbroken (by omega) (by omega)

end Wait

/-! ### The loops of a session -/

theorem isMark_tagOf (n : ℕ) : IsMark (tagOf n) := by
  have hdigit (c : Char) (h : c.isDigit = true) : c.toNat < 128 ∧ Text.isLineEnd c = false := by
    rw [Decimal.isDigit_iff] at h
    refine ⟨by omega, ?_⟩
    simp only [Text.isLineEnd, decide_eq_false_iff_not, not_or]
    constructor
    · rintro rfl
      exact absurd h (by decide)
    · rintro rfl
      exact absurd h (by decide)
  intro c hc
  simp only [tagOf, Text.padded, List.mem_cons, List.mem_append, List.mem_replicate] at hc
  rcases hc with rfl | ⟨-, rfl⟩ | hc
  · exact ⟨by decide, by decide⟩
  · exact ⟨by decide, by decide⟩
  · exact hdigit c (Nat.isDigit_of_mem_toDigits (by decide) (by decide) hc)

theorem isMark_tag (n : ℕ) : IsMark (tagOf n ++ [' ']) := by
  intro c hc
  rcases List.mem_append.1 hc with hc | hc
  · exact isMark_tagOf n c hc
  · rw [List.mem_singleton.1 hc]
    exact ⟨by decide, by decide⟩

theorem isTagged_iff {tag : ℕ} {line : List Char} :
    isTagged tag line = true ↔ tagOf tag ++ [' '] <+: line :=
  List.isPrefixOf_iff_prefix

theorem isTagged_eq_false {tag : ℕ} {line : List Char} (h : ¬ tagOf tag ++ [' '] <+: line) :
    isTagged tag line = false := by
  rwa [← Bool.not_eq_true, isTagged_iff]

theorem isPrefixOf_tag_eq_false {tag : ℕ} {line : List Char} (h : ¬ tagOf tag <+: line) :
    (tagOf tag).isPrefixOf line = false := by
  rwa [← Bool.not_eq_true, List.isPrefixOf_iff_prefix]

theorem drain_ok (tag n : ℕ) (c : Conn) : (drain tag n c).1.1 = .ok () := by
  induction n generalizing c with
  | zero => rfl
  | succ n ih =>
    unfold drain
    rw [run_bind, run_attempt]
    rcases readLine c with ⟨⟨e | line, c'⟩, log⟩
    · rfl
    · simp only
      split_ifs
      · rfl
      · exact ih c'

theorem logoutAfterFailure_ok (tag : ℕ) (c : Conn) : (logoutAfterFailure tag c).1.1 = .ok () := by
  unfold logoutAfterFailure
  rw [run_bind, run_attempt]
  rcases writeCommand tag "LOGOUT" c with ⟨⟨e | _, c'⟩, log⟩
  · rfl
  · exact drain_ok tag 4 c'

theorem awaits_capability (tag : ℕ) : Awaits (tagOf tag ++ [' ']) (capabilityLine tag) where
  isMark := isMark_tag tag
  skips caps line c hline _ := by
    simp only [capabilityLine, isTagged_eq_false hline, Bool.false_eq_true, if_false]
    exact ⟨_, rfl⟩
  answers caps line c hline := by
    simp only [capabilityLine, isTagged_iff.2 hline, if_true]
    exact ⟨nofun, nofun⟩

theorem awaits_login (tag : ℕ) : Awaits (tagOf tag ++ [' ']) (loginLine tag) where
  isMark := isMark_tag tag
  skips _ line c hline _ := by
    refine ⟨(), ?_⟩
    simp only [loginLine, isTagged_eq_false hline, Bool.false_eq_true, if_false]
    rfl
  answers _ line c hline := by
    simp only [loginLine, isTagged_iff.2 hline, if_true]
    split_ifs
    · rw [run_bind]
      have hok := logoutAfterFailure_ok (tag + 1) c
      rcases hrun : logoutAfterFailure (tag + 1) c with ⟨⟨e | _, c'⟩, log⟩
      · rw [hrun] at hok
        cases hok
      · exact ⟨by simp [fail, refusal, connectFailure, imapFailure], fun _ => by simp [fail]⟩
    · exact ⟨nofun, nofun⟩
    · exact ⟨by simp [fail, imapFailure], fun _ => by simp [fail]⟩

theorem awaits_xoauth2 (tag : ℕ) : Awaits (tagOf tag ++ [' ']) (xoauth2Line tag) where
  isMark := isMark_tag tag
  skips _ line c hline hbroken := by
    refine ⟨(), ?_⟩
    simp only [xoauth2Line, isTagged_eq_false hline, Bool.false_eq_true, if_false]
    split_ifs
    · exact run_write_bind hbroken
    · rfl
  answers _ line c hline := by
    have hplus : "+".toList.isPrefixOf line = false := by
      obtain ⟨rest, rfl⟩ := hline
      rfl
    simp only [xoauth2Line, hplus, isTagged_iff.2 hline, Bool.false_eq_true, if_false, if_true]
    split_ifs
    · exact ⟨by simp [fail, refusal, connectFailure, imapFailure], fun _ => by simp [fail]⟩
    · exact ⟨nofun, nofun⟩
    · exact ⟨by simp [fail, imapFailure], fun _ => by simp [fail]⟩

theorem awaits_examine (tag : ℕ) : Awaits (tagOf tag) (examineLine tag) where
  isMark := isMark_tagOf tag
  skips uidValidity line c hline _ := by
    simp only [examineLine, isPrefixOf_tag_eq_false hline, Bool.false_eq_true, if_false]
    exact ⟨_, rfl⟩
  answers uidValidity line c hline := by
    simp only [examineLine, List.isPrefixOf_iff_prefix.2 hline, if_true]
    cases noWords line with
    | some words => exact ⟨by simp [fail, imapFailure], fun _ => by simp [fail]⟩
    | none => exact ⟨nofun, nofun⟩

theorem awaits_search (tag : ℕ) : Awaits (tagOf tag) (searchLine tag) where
  isMark := isMark_tagOf tag
  skips uids line c hline _ := by
    simp only [searchLine, isPrefixOf_tag_eq_false hline, Bool.false_eq_true, if_false]
    exact ⟨_, rfl⟩
  answers uids line c hline := by
    simp only [searchLine, List.isPrefixOf_iff_prefix.2 hline, if_true]
    cases noWords line with
    | some words => exact ⟨by simp [fail, imapFailure], fun _ => by simp [fail]⟩
    | none => exact ⟨nofun, nofun⟩

/-! ### Telling what was read ahead -/

section Tell

variable {α β : Type} {mark : List Char} {answer : α → List Char → Talk Failure (α ⊕ β)}

/-- After a first part that is not passed over, some bytes show: the loop on them returns something
else without that part. -/
theorem told_apart (hw : Awaits mark answer) (first : UInt8) (others : Bytes)
    (hoctets : octets mark = first :: others) (hfirst : first ∉ others) {r : Bytes} (hr : r ≠ [])
    (hstuck : 10 ∈ r → ∀ text, lineText (upTo none r) = .ok text → mark <+: text)
    (ending : Bytes) (h10 : 10 ∉ octets mark ++ ending) (text : List Char)
    (htext : lineText (octets mark ++ ending ++ [10]) = .ok text)
    (hanswer : ∀ a c, ∃ b, (answer a text c).1 = (.ok (.inr b), c)) (a : α) :
    ∃ t : Bytes, ∀ c c' : Conn, c.reader.bytes = r ++ t → c'.reader.bytes = t →
      c.reader.ending = none → c'.reader.ending = none → c.broken = none → c'.broken = none →
      ∀ fuel, (rounds answer (fuel + 1) a c).1.1 ≠ (repeatedly (round answer) a c').1.1 := by
  have hne : mark ≠ [] := by
    rintro rfl
    cases hoctets
  by_cases h10r : 10 ∈ r
  · -- the first line ends the loop, and no line does not
    refine ⟨[], fun c c' hbytes hbytes' hending hending' hbroken hbroken' fuel => ?_⟩
    rw [repeatedly_round, rounds_end hw hne hbroken' hbytes' hending']
    apply rounds_answer hw (Or.inl hending)
    rw [hbytes, List.append_nil]
    exact hstuck h10r
  by_cases hline : ∀ text, lineText (r ++ [10]) = .ok text → mark <+: text
  · -- an empty line completes one that ends the loop
    refine ⟨[10], fun c c' hbytes hbytes' hending hending' hbroken hbroken' fuel => ?_⟩
    have hblank : lineText (upTo none c'.reader.bytes) = .ok [] := by
      rw [hbytes']
      rfl
    obtain ⟨a', reader, hrest, hend, hskip⟩ := rounds_skip hw hbroken' (Or.inl hending') hblank
      (by simpa using hne) a
    have hnil : reader.bytes = [] := by
      rw [hrest, hbytes']
      rfl
    have hclean := rounds_end (c := { c' with reader }) hw hne hbroken' hnil (hend.trans hending')
      c'.reader.bytes.length a'
    rw [repeatedly_round, hskip, hclean]
    apply rounds_answer hw (Or.inl hending)
    rw [hbytes, upTo_line h10r]
    exact hline
  · -- a marked line loses its mark in the middle of a line
    push Not at hline
    obtain ⟨text', htext', hmark⟩ := hline
    refine ⟨octets mark ++ ending ++ [10],
      fun c c' hbytes hbytes' hending hending' hbroken hbroken' fuel => ?_⟩
    obtain ⟨reader', -, -, hclean⟩ := run_round answer (Or.inl hending') a
    obtain ⟨b, hb⟩ := hanswer a { c' with reader := reader' }
    have hwhole : upTo none c'.reader.bytes = octets mark ++ ending ++ [10] := by
      rw [hbytes']
      exact upTo_line h10 []
    rw [hwhole, htext] at hclean
    rw [repeatedly_round, rounds, rounds, loop_inr (hclean.trans hb)]
    obtain ⟨reader, hrest, hend, hdirty⟩ := run_round answer (Or.inl hending) a
    have hmerged : 10 ∉ r ++ (octets mark ++ ending) := by
      rw [List.mem_append, not_or]
      exact ⟨h10r, h10⟩
    have hsplit : c.reader.bytes = r ++ (octets mark ++ ending) ++ 10 :: [] := by
      rw [hbytes]
      simp
    rw [hsplit, upTo_line hmerged] at hdirty
    cases hread : lineText (r ++ (octets mark ++ ending) ++ [10]) with
    | error e =>
      rw [hread] at hdirty
      rw [loop_error hdirty]
      simp
    | ok merged =>
      have hnot : ¬ mark <+: merged := by
        rw [prefix_lineText hw.isMark hread, hoctets]
        have hr' : ¬ first :: others <+: r := by
          intro hprefix
          apply hmark
          rw [prefix_lineText hw.isMark htext', hoctets]
          exact hprefix.trans (List.prefix_append _ _)
        have hmiddle := not_prefix_append (s := ending ++ [10]) hfirst hr hr'
        simpa using hmiddle
      obtain ⟨a', reader'', hrest', hend', hskip⟩ := rounds_skip hw hbroken (Or.inl hending)
        (by rw [hsplit, upTo_line hmerged]; exact hread) hnot a
      have hnil : reader''.bytes = [] := by
        rw [hrest', hsplit, dropLine_line hmerged]
      have hlost := rounds_end (c := { c with reader := reader'' }) hw hne hbroken hnil
        (hend'.trans hending) fuel a'
      rw [← rounds, hskip, hlost]
      simp

end Tell

end EraseMe.Email.Imap
