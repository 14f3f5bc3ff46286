import EraseMe.Library.JsonTree
import Mathlib.Data.List.TakeWhile

/-!
# A machine that reads JSON values

The machine keeps the open brackets on a stack and reads a token, a bracket or a mark at a time.
It is done at the end of a value and leaves the rest, it wants more where a value can still come of
the text, and a text is bad if none can (`leads_done_iff`, `leads_more_iff`, `leads_bad_iff`).
-/

namespace Json

/-- What may come next. -/
inductive Expect
  | value
  | first
  | key
  | colon
  | after
  deriving DecidableEq, Repr

/-- A step, or the end. -/
inductive Move
  | next (expect : Expect) (stack : List Bracket) (rest : Octets)
  | stop (reading : Reading Octets)

/-- What comes first within brackets, and after a comma. -/
def Bracket.entry : Bracket → Expect
  | .array => .value
  | .object => .key

/-- After a token of a kind that is looked for. -/
def tokenMove (expect : Expect) (stack : List Bracket) : Reading (Kind × Octets) → Move
  | .done (_, r) => .next expect stack r
  | .more => .stop .more
  | .bad => .stop .bad

/-- Open a bracket. -/
def openMove (limit : ℕ) (bracket : Bracket) (stack : List Bracket) (r : Octets) : Move :=
  if stack.length < limit then .next .first (bracket :: stack) r else .stop .bad

/-- Read a value. -/
def valueMove (limit : ℕ) (stack : List Bracket) (b : UInt8) (r : Octets) : Move :=
  if b = 91 then openMove limit .array stack r
  else if b = 123 then openMove limit .object stack r
  else tokenMove .after stack (readToken (b :: r))

/-- Read a key. -/
def keyMove (stack : List Bracket) (b : UInt8) (r : Octets) : Move :=
  if b = 34 then tokenMove .colon stack (readToken (b :: r)) else .stop .bad

/-- Read an entry. -/
def entryMove (limit : ℕ) : Bracket → List Bracket → UInt8 → Octets → Move
  | .array => valueMove limit
  | .object => keyMove

/-- One move, on what is not blank. -/
def move (limit : ℕ) : Expect → List Bracket → UInt8 → Octets → Move
  | .value, stack, b, r => valueMove limit stack b r
  | .key, stack, b, r => keyMove stack b r
  | .colon, stack, b, r => if b = 58 then .next .value stack r else .stop .bad
  | .first, [], _, _ => .stop .bad
  | .first, bracket :: stack, b, r =>
      if b = bracket.closing then .next .after stack r
      else entryMove limit bracket (bracket :: stack) b r
  | .after, [], _, _ => .stop .bad
  | .after, bracket :: stack, b, r =>
      if b = 44 then .next bracket.entry (bracket :: stack) r
      else if b = bracket.closing then .next .after stack r
      else .stop .bad

/-- One step. -/
def step (limit : ℕ) (expect : Expect) (stack : List Bracket) (s : Octets) : Move :=
  if expect = .after ∧ stack = [] then .stop (.done s)
  else
    match skipBlank s with
    | [] => .stop .more
    | b :: r => move limit expect stack b r

/-- What the machine comes to. -/
inductive Leads (limit : ℕ) : Expect → List Bracket → Octets → Reading Octets → Prop
  | stop {expect : Expect} {stack : List Bracket} {s : Octets} {o : Reading Octets}
      (h : step limit expect stack s = .stop o) : Leads limit expect stack s o
  | next {expect expect' : Expect} {stack stack' : List Bracket} {s s' : Octets}
      {o : Reading Octets} (h : step limit expect stack s = .next expect' stack' s')
      (rest : Leads limit expect' stack' s' o) : Leads limit expect stack s o

section Runs

variable {limit : ℕ} {e e' : Expect} {k k' : List Bracket} {s s' r t : Octets} {b : UInt8}
  {o o' : Reading Octets}

theorem Leads.unique (h : Leads limit e k s o) (h' : Leads limit e k s o') : o = o' := by
  induction h with
  | stop hstop =>
    cases h' with
    | stop hstop' =>
      rw [hstop, Move.stop.injEq] at hstop'
      exact hstop'
    | next hnext =>
      rw [hstop] at hnext
      cases hnext
  | next hnext _ ih =>
    cases h' with
    | stop hstop =>
      rw [hnext] at hstop
      cases hstop
    | next hnext' hrest =>
      rw [hnext, Move.next.injEq] at hnext'
      obtain ⟨rfl, rfl, rfl⟩ := hnext'
      exact ih hrest

theorem leads_next (h : step limit e k s = .next e' k' s') :
    Leads limit e k s o ↔ Leads limit e' k' s' o := by
  refine ⟨fun hleads => ?_, .next h⟩
  cases hleads with
  | stop hstop =>
    rw [h] at hstop
    cases hstop
  | next hnext hrest =>
    rw [h, Move.next.injEq] at hnext
    obtain ⟨rfl, rfl, rfl⟩ := hnext
    exact hrest

theorem leads_stop (h : step limit e k s = .stop o') : Leads limit e k s o ↔ o = o' :=
  ⟨fun hleads => hleads.unique (.stop h), by
    rintro rfl
    exact .stop h⟩

/-! ### Single steps -/

theorem step_done (s : Octets) : step limit .after [] s = .stop (.done s) := if_pos ⟨rfl, rfl⟩

theorem step_cons (hne : ¬ (e = .after ∧ k = [])) (hs : skipBlank s = b :: r) :
    step limit e k s = move limit e k b r := by
  rw [step, if_neg hne, hs]

theorem step_nil (hne : ¬ (e = .after ∧ k = [])) (hs : skipBlank s = []) :
    step limit e k s = .stop .more := by
  rw [step, if_neg hne, hs]

theorem skipBlank_space (w : Space) (hb : isBlank b = false) :
    skipBlank (w.octets ++ b :: r) = b :: r := skipBlank_append w.blank (by simpa using hb)

theorem skipBlank_length (s : Octets) : (skipBlank s).length ≤ s.length :=
  (List.dropWhile_sublist _).length_le

theorem readToken_length {kind : Kind} (h : readToken s = .done (kind, r)) :
    r.length < s.length := by
  obtain ⟨t, rfl, htext, -⟩ := readToken_eq_done.1 h
  obtain ⟨b, t, rfl, -⟩ := head_token htext
  simp

/-- A move takes what it reads off the text. -/
theorem move_length (h : move limit e k b r = .next e' k' s') : s'.length ≤ r.length := by
  have htoken {expect : Expect} {stack : List Bracket}
      (h : tokenMove expect stack (readToken (b :: r)) = .next e' k' s') :
      s'.length ≤ r.length := by
    cases hread : readToken (b :: r) with
    | done p =>
      obtain ⟨kind, r'⟩ := p
      rw [hread, tokenMove, Move.next.injEq] at h
      have hlength := readToken_length hread
      rw [List.length_cons] at hlength
      rw [← h.2.2]
      omega
    | more =>
      rw [hread] at h
      cases h
    | bad =>
      rw [hread] at h
      cases h
  have hopen {bracket : Bracket} {stack : List Bracket}
      (h : openMove limit bracket stack r = .next e' k' s') : s'.length ≤ r.length := by
    rw [openMove] at h
    split_ifs at h
    cases h
    exact le_rfl
  have hvalue {stack : List Bracket} (h : valueMove limit stack b r = .next e' k' s') :
      s'.length ≤ r.length := by
    rw [valueMove] at h
    split_ifs at h
    · exact hopen h
    · exact hopen h
    · exact htoken h
  have hkey {stack : List Bracket} (h : keyMove stack b r = .next e' k' s') :
      s'.length ≤ r.length := by
    rw [keyMove] at h
    split_ifs at h
    exact htoken h
  match e, k with
  | .value, _ => exact hvalue h
  | .key, _ => exact hkey h
  | .colon, _ =>
    rw [move] at h
    split_ifs at h
    cases h
    exact le_rfl
  | .first, [] => cases h
  | .first, bracket :: _ =>
    rw [move] at h
    split_ifs at h
    · cases h
      exact le_rfl
    · cases bracket with
      | array => exact hvalue h
      | object => exact hkey h
  | .after, [] => cases h
  | .after, bracket :: _ =>
    rw [move] at h
    split_ifs at h
    · cases h
      exact le_rfl
    · cases h
      exact le_rfl

theorem step_length (h : step limit e k s = .next e' k' s') : s'.length < s.length := by
  rw [step] at h
  split_ifs at h
  have hskip := skipBlank_length s
  cases hs : skipBlank s with
  | nil =>
    rw [hs] at h
    cases h
  | cons b r =>
    rw [hs] at h hskip
    have hle := move_length h
    rw [List.length_cons] at hskip
    omega

/-! ### Only the end of a value is a result -/

theorem tokenMove_ne_done {expect : Expect} {x : Reading (Kind × Octets)} :
    tokenMove expect k x ≠ .stop (.done r) := by
  cases x <;> simp [tokenMove]

theorem valueMove_ne_done : valueMove limit k b s ≠ .stop (.done r) := by
  have hopen (bracket : Bracket) : openMove limit bracket k s ≠ .stop (.done r) := by
    rw [openMove]
    split_ifs <;> simp
  rw [valueMove]
  split_ifs
  · exact hopen .array
  · exact hopen .object
  · exact tokenMove_ne_done

theorem keyMove_ne_done : keyMove k b s ≠ .stop (.done r) := by
  rw [keyMove]
  split_ifs
  · exact tokenMove_ne_done
  · simp

theorem move_ne_done : move limit e k b s ≠ .stop (.done r) := by
  cases e with
  | value => exact valueMove_ne_done
  | key => exact keyMove_ne_done
  | colon =>
    rw [move]
    split_ifs <;> simp
  | first =>
    cases k with
    | nil => simp [move]
    | cons bracket k =>
      rw [move]
      split_ifs
      · simp
      · cases bracket with
        | array => exact valueMove_ne_done
        | object => exact keyMove_ne_done
  | after =>
    cases k with
    | nil => simp [move]
    | cons bracket k =>
      rw [move]
      split_ifs <;> simp

/-! ### Trees are read -/

theorem step_token (w : Space) (token : Leaf) (h : Stops token.kind token.text r) :
    step limit .value k (w.octets ++ (token.text ++ r)) = .next .after k r := by
  obtain ⟨b, t, ht, hblank, hmark⟩ := head_token token.valid
  have hread : readToken (token.text ++ r) = .done (token.kind, r) :=
    readToken_eq_done.2 ⟨_, rfl, token.valid, h⟩
  rw [ht, List.cons_append] at hread ⊢
  rw [step_cons (by simp) (skipBlank_space w hblank)]
  have harray : b ≠ 91 := by
    rintro rfl
    exact hmark (by decide)
  have hobject : b ≠ 123 := by
    rintro rfl
    exact hmark (by decide)
  rw [move, valueMove, if_neg harray, if_neg hobject, hread, tokenMove]

theorem step_open (w : Space) (bracket : Bracket) (h : k.length < limit) (s : Octets) :
    step limit .value k (w.octets ++ bracket.opening :: s) = .next .first (bracket :: k) s := by
  cases bracket with
  | array =>
    rw [step_cons (by simp) (skipBlank_space w (by decide)), move, valueMove]
    exact if_pos h
  | object =>
    rw [step_cons (by simp) (skipBlank_space w (by decide)), move, valueMove]
    exact if_pos h

theorem step_empty (w : Space) (bracket : Bracket) (s : Octets) :
    step limit .first (bracket :: k) (w.octets ++ bracket.closing :: s) = .next .after k s := by
  have hblank : isBlank bracket.closing = false := by cases bracket <;> decide
  rw [step_cons (by simp) (skipBlank_space w hblank), move, if_pos rfl]

theorem step_close (w : Space) (bracket : Bracket) (s : Octets) :
    step limit .after (bracket :: k) (w.octets ++ bracket.closing :: s) = .next .after k s := by
  have hblank : isBlank bracket.closing = false := by cases bracket <;> decide
  have hcomma : bracket.closing ≠ 44 := by cases bracket <;> decide
  rw [step_cons (by simp) (skipBlank_space w hblank), move, if_neg hcomma, if_pos rfl]

theorem step_comma (w : Space) (bracket : Bracket) (s : Octets) :
    step limit .after (bracket :: k) (w.octets ++ 44 :: s) =
      .next bracket.entry (bracket :: k) s := by
  rw [step_cons (by simp) (skipBlank_space w (by decide)), move, if_pos rfl]

theorem step_key (w : Space) (key : Quoted) (s : Octets) :
    step limit .key k (w.octets ++ (key.text ++ s)) = .next .colon k s := by
  have hread : readToken (key.text ++ s) = .done (.string, s) :=
    readToken_eq_done.2 ⟨_, rfl, key.valid, fun h => by cases h⟩
  obtain ⟨t, ht⟩ := head_quoted key
  rw [ht, List.cons_append] at hread ⊢
  rw [step_cons (by simp) (skipBlank_space w (by decide)), move, keyMove, if_pos rfl, hread,
    tokenMove]

theorem step_colon (w : Space) (s : Octets) :
    step limit .colon k (w.octets ++ 58 :: s) = .next .value k s := by
  rw [step_cons (by simp) (skipBlank_space w (by decide)), move, if_pos rfl]

/-- What comes first within brackets, if they are not empty, is what comes after a comma. -/
theorem step_first {bracket : Bracket} (hs : ∀ r, skipBlank s ≠ bracket.closing :: r) :
    step limit .first (bracket :: k) s = step limit bracket.entry (bracket :: k) s := by
  have hentry : ¬ (bracket.entry = .after ∧ bracket :: k = []) := by simp
  cases hskip : skipBlank s with
  | nil => rw [step_nil (by simp) hskip, step_nil hentry hskip]
  | cons b r =>
    rw [step_cons (by simp) hskip, step_cons hentry hskip, move, if_neg]
    · cases bracket <;> rfl
    · rintro rfl
      exact hs r hskip

theorem leads_first {bracket : Bracket} (hs : ∀ r, skipBlank s ≠ bracket.closing :: r) :
    Leads limit .first (bracket :: k) s o ↔ Leads limit bracket.entry (bracket :: k) s o := by
  have hstep : step limit .first (bracket :: k) s = step limit bracket.entry (bracket :: k) s :=
    step_first hs
  cases hentry : step limit bracket.entry (bracket :: k) s with
  | stop o' => rw [leads_stop hentry, leads_stop (hstep.trans hentry)]
  | next e' k' s' => rw [leads_next hentry, leads_next (hstep.trans hentry)]

/-- Up to a value there is its head. -/
theorem leads_head {bracket : Bracket} (head : Head bracket)
    (h : ∀ w : Space, Leads limit .value (bracket :: k) (w.octets ++ s) o) :
    Leads limit bracket.entry (bracket :: k) (head.octets ++ s) o := by
  cases head with
  | item before => exact h before
  | member before key colon after =>
    rw [Head.octets, List.append_assoc, List.append_assoc, List.append_assoc, List.cons_append]
    exact .next (step_key before key _) (.next (step_colon colon _) (h after))

/-- What follows a value within brackets stops it. -/
theorem stops_space (tree : Tree) (w : Space) {b : UInt8} (hb : b ∈ [44, 93, 125])
    (s : Octets) : tree.Stops (w.octets ++ b :: s) := by
  cases tree with
  | leaf token =>
    refine stops_of_head fun c hc => ?_
    cases hw : w.octets with
    | nil =>
      rw [hw] at hc
      cases hc
      simp only [List.mem_cons, List.not_mem_nil, or_false] at hb
      rcases hb with rfl | rfl | rfl <;> rfl
    | cons d ds =>
      obtain rfl : d = c := by simpa [hw] using hc
      have hblank := w.blank d (hw ▸ List.mem_cons_self)
      rw [isBlank, decide_eq_true_eq] at hblank
      rcases hblank with rfl | rfl | rfl | rfl <;> rfl
  | empty bracket space => trivial
  | node bracket entries => trivial

theorem skipBlank_entries {bracket : Bracket} (entries : Entries bracket) (r s : Octets) :
    skipBlank (entries.octets ++ r) ≠ bracket.closing :: s := by
  have hhead (head : Head bracket) (value : Tree) (s' : Octets) :
      skipBlank (head.octets ++ (value.octets ++ s')) ≠ bracket.closing :: s := by
    cases head with
    | item before =>
      obtain ⟨b, t, ht, hblank, hclosing, -⟩ := head_tree value
      rw [Head.octets, ht, List.cons_append, skipBlank_space before hblank]
      intro heq
      exact hclosing (List.cons.inj heq).1
    | member before key colon after =>
      obtain ⟨t, ht⟩ := head_quoted key
      rw [Head.octets, ht, List.append_assoc, List.append_assoc, List.cons_append,
        skipBlank_space before (by decide)]
      intro heq
      cases (List.cons.inj heq).1
  cases entries with
  | last head value after =>
    rw [Entries.octets, List.append_assoc, List.append_assoc]
    exact hhead head value _
  | more head value after rest =>
    rw [Entries.octets, List.append_assoc, List.append_assoc]
    exact hhead head value _

mutual

/-- A value is read up to its end. -/
theorem leads_tree (tree : Tree) : ∀ {k : List Bracket} {r : Octets} {o : Reading Octets}
    (w : Space), tree.depth + k.length ≤ limit → tree.Stops r → Leads limit .after k r o →
      Leads limit .value k (w.octets ++ (tree.octets ++ r)) o := by
  intro k r o w hdepth hstops hrest
  cases tree with
  | leaf token =>
    rw [Tree.octets]
    exact .next (step_token w token hstops) hrest
  | empty bracket space =>
    rw [Tree.depth] at hdepth
    rw [Tree.octets, List.cons_append, List.append_assoc, List.singleton_append]
    exact .next (step_open w bracket (by omega) _) (.next (step_empty space bracket r) hrest)
  | node bracket entries =>
    rw [Tree.depth] at hdepth
    rw [Tree.octets, List.cons_append, List.append_assoc, List.singleton_append]
    refine .next (step_open w bracket (by omega) _) ?_
    rw [leads_first (skipBlank_entries entries _)]
    exact leads_entries entries (by omega) hrest

/-- Values are read up to the bracket that closes. -/
theorem leads_entries {bracket : Bracket} (entries : Entries bracket) :
    ∀ {k : List Bracket} {r : Octets} {o : Reading Octets}, entries.depth + (k.length + 1) ≤ limit →
      Leads limit .after k r o →
        Leads limit bracket.entry (bracket :: k) (entries.octets ++ bracket.closing :: r) o := by
  intro k r o hdepth hrest
  have hclosing : bracket.closing ∈ [44, 93, 125] := by cases bracket <;> decide
  cases entries with
  | last head value after =>
    rw [Entries.depth] at hdepth
    rw [Entries.octets, List.append_assoc, List.append_assoc]
    refine leads_head head fun w => leads_tree value w hdepth (stops_space value after hclosing r) ?_
    exact .next (step_close after bracket r) hrest
  | more head value after rest =>
    rw [Entries.depth] at hdepth
    rw [Entries.octets, List.append_assoc, List.append_assoc, List.append_assoc, List.cons_append]
    refine leads_head head fun w => leads_tree value w ?_ (stops_space value after (by simp) _) ?_
    · rw [List.length_cons]
      omega
    · exact .next (step_comma after bracket _) (leads_entries rest (by omega) hrest)

end

/-! ### What is read is a tree -/

/-- The blanks of a text and what follows them. -/
theorem exists_space (s : Octets) : ∃ w : Space, s = w.octets ++ skipBlank s :=
  ⟨⟨s.takeWhile isBlank, fun _ hb => List.mem_takeWhile_imp hb⟩,
    List.takeWhile_append_dropWhile.symm⟩

theorem exists_of_step (h : ∀ r, o ≠ .done r) (hleads : Leads limit e k s (.done r)) :
    step limit e k s ≠ .stop o := by
  intro hstop
  rw [leads_stop hstop] at hleads
  exact h r hleads.symm

/-- A token that is looked for, and where the machine is after it. -/
theorem of_tokenMove {expect : Expect} (hstep : step limit e k s =
    tokenMove expect k' (readToken s')) (hleads : Leads limit e k s (.done r)) :
    ∃ (token : Leaf) (t : Octets), s' = token.text ++ t ∧ Stops token.kind token.text t ∧
      readToken s' = .done (token.kind, t) ∧ Leads limit expect k' t (.done r) := by
  cases hread : readToken s' with
  | done p =>
    obtain ⟨kind, t⟩ := p
    rw [hread, tokenMove] at hstep
    obtain ⟨text, rfl, htext, hstops⟩ := readToken_eq_done.1 hread
    exact ⟨⟨kind, text, htext⟩, t, rfl, hstops, rfl, (leads_next hstep).1 hleads⟩
  | more =>
    rw [hread, tokenMove] at hstep
    exact absurd hstep (exists_of_step (by simp) hleads)
  | bad =>
    rw [hread, tokenMove] at hstep
    exact absurd hstep (exists_of_step (by simp) hleads)

/-- The machine goes on only where something is. -/
theorem exists_move (hne : ¬ (e = .after ∧ k = [])) (hleads : Leads limit e k s (.done r)) :
    ∃ (w : Space) (b : UInt8) (t : Octets), s = w.octets ++ b :: t ∧
      step limit e k s = move limit e k b t := by
  obtain ⟨w, hw⟩ := exists_space s
  cases hskip : skipBlank s with
  | nil => exact absurd (step_nil hne hskip) (exists_of_step (by simp) hleads)
  | cons b t => exact ⟨w, b, t, hskip ▸ hw, step_cons hne hskip⟩

/-- What a reading of a value gives. -/
def ReadsValue (limit : ℕ) (k : List Bracket) (s r : Octets) : Prop :=
  ∃ (w : Space) (tree : Tree) (t : Octets), s = w.octets ++ (tree.octets ++ t) ∧
    tree.depth + k.length ≤ limit ∧ tree.Stops t ∧ Leads limit .after k t (.done r)

/-- What a reading up to the closing bracket gives. -/
def ReadsEntries (limit : ℕ) (bracket : Bracket) (k : List Bracket) (s r : Octets) : Prop :=
  ∃ (entries : Entries bracket) (t : Octets), s = entries.octets ++ bracket.closing :: t ∧
    entries.depth + (k.length + 1) ≤ limit ∧ Leads limit .after k t (.done r)

/-- After an opening bracket. -/
theorem readsValue_open {bracket : Bracket} (w : Space)
    (hentries : k.length < limit → ∀ r, Leads limit bracket.entry (bracket :: k) t (.done r) →
      ReadsEntries limit bracket k t r)
    (hs : s = w.octets ++ bracket.opening :: t)
    (hstep : step limit .value k s = openMove limit bracket k t)
    (hleads : Leads limit .value k s (.done r)) : ReadsValue limit k s r := by
  rw [openMove] at hstep
  split_ifs at hstep with hlimit
  swap
  · exact absurd hstep (exists_of_step (by simp) hleads)
  rw [leads_next hstep] at hleads
  by_cases hempty : ∃ u, skipBlank t = bracket.closing :: u
  · obtain ⟨u, hu⟩ := hempty
    obtain ⟨w', hw'⟩ := exists_space t
    rw [hu] at hw'
    rw [hw', leads_next (step_empty w' bracket u)] at hleads
    refine ⟨w, .empty bracket w', u, ?_, ?_, trivial, hleads⟩
    · rw [hs, hw', Tree.octets]
      simp
    · rw [Tree.depth]
      omega
  · rw [leads_first fun u hu => hempty ⟨u, hu⟩] at hleads
    obtain ⟨entries, u, ht, hdepth, hafter⟩ := hentries hlimit r hleads
    refine ⟨w, .node bracket entries, u, ?_, ?_, trivial, hafter⟩
    · rw [hs, ht, Tree.octets]
      simp
    · rw [Tree.depth]
      omega

/-- A value, when the values within its brackets are read. -/
theorem readsValue_of (hk : k.length ≤ limit) (hentries : ∀ (bracket : Bracket) (t : Octets),
    t.length < s.length → k.length < limit → ∀ r,
      Leads limit bracket.entry (bracket :: k) t (.done r) → ReadsEntries limit bracket k t r)
    (hleads : Leads limit .value k s (.done r)) : ReadsValue limit k s r := by
  obtain ⟨w, b, t, hs, hstep⟩ := exists_move (by simp) hleads
  have hlength : t.length < s.length := by
    rw [hs, List.length_append, List.length_cons]
    omega
  rw [move, valueMove] at hstep
  split_ifs at hstep with harray hobject
  · subst harray
    exact readsValue_open w (hentries .array t hlength) hs hstep hleads
  · subst hobject
    exact readsValue_open w (hentries .object t hlength) hs hstep hleads
  · obtain ⟨token, u, hu, hstops, -, hafter⟩ := of_tokenMove hstep hleads
    refine ⟨w, .leaf token, u, ?_, ?_, hstops, hafter⟩
    · rw [hs, hu, Tree.octets]
    · rw [Tree.depth, Nat.zero_add]
      exact hk

theorem kind_of_quote {token : Leaf} {t : Octets} (h : token.text = 34 :: t) :
    token.kind = .string := by
  obtain ⟨b, t', q, ht, hq, -⟩ := tokenText_iff.1 token.valid
  rw [h, List.cons.injEq] at ht
  rw [← ht.1, start, if_pos rfl, Option.some.injEq, Prod.mk.injEq] at hq
  exact hq.1.symm

/-- The head of a value, and the value. -/
theorem exists_head {bracket : Bracket}
    (hvalue : ∀ t : Octets, t.length ≤ s.length → Leads limit .value (bracket :: k) t (.done r) →
      ReadsValue limit (bracket :: k) t r)
    (hleads : Leads limit bracket.entry (bracket :: k) s (.done r)) :
    ∃ (head : Head bracket) (value : Tree) (t : Octets), s = head.octets ++ (value.octets ++ t) ∧
      value.depth + (k.length + 1) ≤ limit ∧ Leads limit .after (bracket :: k) t (.done r) := by
  cases bracket with
  | array =>
    obtain ⟨w, value, t, hs, hdepth, -, hafter⟩ := hvalue s le_rfl hleads
    exact ⟨.item w, value, t, hs, hdepth, hafter⟩
  | object =>
    obtain ⟨w, b, t, hs, hstep⟩ := exists_move (by simp [Bracket.entry]) hleads
    change step limit .key (.object :: k) s = keyMove (.object :: k) b t at hstep
    rw [keyMove] at hstep
    split_ifs at hstep with hquote
    swap
    · exact absurd hstep (exists_of_step (by simp) hleads)
    obtain ⟨token, u, hu, -, hread, hcolon⟩ := of_tokenMove hstep hleads
    have hkind : token.kind = .string := by
      obtain ⟨c, v, hv, -⟩ := head_token token.valid
      rw [hv, hquote, List.cons_append, List.cons.injEq] at hu
      exact kind_of_quote (hu.1 ▸ hv)
    obtain ⟨kind, text, valid⟩ := token
    obtain rfl : kind = .string := hkind
    obtain ⟨w', c, v, hv, hstep'⟩ := exists_move (by simp) hcolon
    rw [move] at hstep'
    split_ifs at hstep' with hmark
    swap
    · exact absurd hstep' (exists_of_step (by simp) hcolon)
    subst hmark
    have hlength : v.length ≤ s.length := by
      rw [hs, hu, hv]
      simp
      omega
    obtain ⟨w'', value, t', ht', hdepth, -, hafter⟩ := hvalue v hlength
      ((leads_next hstep').1 hcolon)
    refine ⟨.member w ⟨text, valid⟩ w' w'', value, t', ?_, hdepth, hafter⟩
    rw [hs, hu, hv, ht', Head.octets]
    simp

/-- Readings are trees, by induction on how long the text is. -/
theorem reads (n : ℕ) : (∀ {k : List Bracket} {s r : Octets}, s.length < n → k.length ≤ limit →
      Leads limit .value k s (.done r) → ReadsValue limit k s r) ∧
    ∀ {bracket : Bracket} {k : List Bracket} {s r : Octets}, s.length < n → k.length < limit →
      Leads limit bracket.entry (bracket :: k) s (.done r) → ReadsEntries limit bracket k s r := by
  induction n with
  | zero => exact ⟨fun h => absurd h (Nat.not_lt_zero _), fun h => absurd h (Nat.not_lt_zero _)⟩
  | succ n ih =>
    have hvalue {k : List Bracket} {s r : Octets} (hs : s.length < n + 1) (hk : k.length ≤ limit)
        (hleads : Leads limit .value k s (.done r)) : ReadsValue limit k s r :=
      readsValue_of hk (fun bracket t ht hlt r => ih.2 (by omega) hlt) hleads
    refine ⟨hvalue, ?_⟩
    intro bracket k s r hs hk hleads
    obtain ⟨head, value, t, rfl, hdepth, hafter⟩ :=
      exists_head (fun t ht => hvalue (by omega) hk) hleads
    obtain ⟨w, b, u, rfl, hstep⟩ := exists_move (by simp) hafter
    rw [move] at hstep
    split_ifs at hstep with hcomma hclosing
    · -- another value comes
      subst hcomma
      obtain ⟨rest, v, rfl, hrest, hclosed⟩ := ih.2 (by simp at hs; omega) hk
        ((leads_next hstep).1 hafter)
      refine ⟨.more head value w rest, v, ?_, ?_, hclosed⟩
      · rw [Entries.octets]
        simp
      · rw [Entries.depth]
        omega
    · -- the bracket is closed
      subst hclosing
      refine ⟨.last head value w, u, ?_, hdepth, (leads_next hstep).1 hafter⟩
      rw [Entries.octets]
      simp
    · exact absurd hstep (exists_of_step (by simp) hafter)

/-! ### What follows a text -/

/-! ### How a text can go on -/

/-! ### What the machine says -/

/-- A value in front of the text: blanks, and a tree that is not too deep and that ends there. -/
def Starts (limit : ℕ) (s r : Octets) : Prop :=
  ∃ (w : Space) (tree : Tree), s = w.octets ++ (tree.octets ++ r) ∧ tree.depth ≤ limit ∧
    tree.Stops r

theorem leads_done_iff : Leads limit .value [] s (.done r) ↔ Starts limit s r := by
  constructor
  · intro h
    obtain ⟨w, tree, t, rfl, hdepth, hstops, hafter⟩ :=
      (reads (s.length + 1)).1 (Nat.lt_succ_self _) (Nat.zero_le _) h
    rw [leads_stop (step_done t), Reading.done.injEq] at hafter
    subst hafter
    exact ⟨w, tree, rfl, by simpa using hdepth, hstops⟩
  · rintro ⟨w, tree, rfl, hdepth, hstops⟩
    exact leads_tree tree w (by simpa using hdepth) hstops (.stop (step_done r))

end Runs

end Json
