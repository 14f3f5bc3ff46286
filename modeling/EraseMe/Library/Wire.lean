import EraseMe.Library.Octets
import EraseMe.Library.Text

/-!
# Talking over a byte stream

A peer sends its bytes in pieces, one for each read.  A buffered reader takes them line by line and
may read ahead of the line it returns.  A program talks to the peer: it reads, writes, and may put
the stream under protection, after which it goes on with other bytes of the peer.

* `Says B m`: whatever the program writes is in `B`, and is protected if the stream is;
* `Writes B m`: whatever the program writes is in `B`;
* `Guards B m`, `Secures m`: what it writes before protection is in `B`, and when it returns the
  stream is protected;
* `Respects R m`: on readers that `R` relates, the program does the same.  `R` may be equality, or
  `Reader.Alike`: the same bytes are to come, in whatever pieces.
-/

namespace Wire

/-- What is sent. -/
abbrev Bytes := List UInt8

/-- What the peer sends, and the error its stream ends with, if it is not just closed. -/
structure Source where
  pieces : List Bytes
  ending : Option String
  deriving DecidableEq

/-- What has been read ahead, and what is to be read. -/
structure Reader where
  buffer : Bytes
  pieces : List Bytes
  ending : Option String
  deriving DecidableEq

/-- The bytes to come. -/
def Reader.bytes (r : Reader) : Bytes := r.buffer ++ r.pieces.flatten

/-! ### Reading -/

/-- The bytes up to the first line break, and not more than the limit. -/
def upTo (limit : Option ℕ) : Bytes → Bytes
  | [] => []
  | b :: s =>
      if limit = some 0 then []
      else if b = 10 then [b]
      else b :: upTo (limit.map (· - 1)) s

/-- A line, or as many bytes as the limit allows, is there. -/
def enough (limit : Option ℕ) (s : Bytes) : Bool :=
  limit.any (· ≤ s.length) || decide (10 ∈ s)

/-- Read up to a line break; at the end of the stream what is left, and whether it ended. -/
def readPieces (limit : Option ℕ) (buffer : Bytes) : List Bytes → Bytes × Bytes × List Bytes × Bool
  | [] =>
      if enough limit buffer then
        (upTo limit buffer, buffer.drop (upTo limit buffer).length, [], false)
      else (buffer, [], [], true)
  | piece :: pieces =>
      if enough limit buffer then
        (upTo limit buffer, buffer.drop (upTo limit buffer).length, piece :: pieces, false)
      else
        let (line, rest) := readPieces (limit.map (· - buffer.length)) piece pieces
        (buffer ++ line, rest)

/-- `read_until` for a line break. -/
def Reader.readUntil (limit : Option ℕ) (r : Reader) : Except String Bytes × Reader :=
  match readPieces limit r.buffer r.pieces with
  | (line, buffer, pieces, ended) =>
      (match ended, r.ending with
        | true, some error => .error error
        | _, _ => .ok line, ⟨buffer, pieces, r.ending⟩)

/-- The same on the bytes themselves. -/
def readBytes (limit : Option ℕ) (ending : Option String) (s : Bytes) :
    Except String Bytes × Bytes :=
  if enough limit s then (.ok (upTo limit s), s.drop (upTo limit s).length)
  else (match ending with
    | some error => .error error
    | none => .ok s, [])

theorem upTo_append {limit : Option ℕ} {s : Bytes} (h : enough limit s = true) (t : Bytes) :
    upTo limit (s ++ t) = upTo limit s := by
  induction s generalizing limit with
  | nil =>
    cases t with
    | nil => rfl
    | cons b t =>
      cases limit with
      | none => simp [enough] at h
      | some n =>
        have hn : n = 0 := by simpa [enough] using h
        simp [upTo, hn]
  | cons b s ih =>
    simp only [List.cons_append, upTo]
    by_cases h0 : limit = some 0
    · rw [if_pos h0, if_pos h0]
    · rw [if_neg h0, if_neg h0]
      by_cases hb : b = 10
      · rw [if_pos hb, if_pos hb]
      · rw [if_neg hb, if_neg hb, ih]
        cases limit with
        | none => simpa [enough, Ne.symm hb] using h
        | some n =>
          have hn : n ≠ 0 := fun hn => h0 (by rw [hn])
          simp only [enough, Option.any_some, Option.map_some, List.length_cons, List.mem_cons,
            Bool.or_eq_true, decide_eq_true_eq] at h ⊢
          rcases h with h | h | h
          · left
            omega
          · exact absurd h.symm hb
          · exact Or.inr h

theorem upTo_append_of_not {limit : Option ℕ} {s : Bytes} (h : enough limit s = false)
    (t : Bytes) : upTo limit (s ++ t) = s ++ upTo (limit.map (· - s.length)) t := by
  induction s generalizing limit with
  | nil => cases limit <;> simp
  | cons b s ih =>
    have hb : b ≠ 10 := by
      rintro rfl
      simp [enough] at h
    have h0 : limit ≠ some 0 := by
      rintro rfl
      simp [enough] at h
    have hs : enough (limit.map (· - 1)) s = false := by
      cases limit with
      | none => simpa [enough, Ne.symm hb] using h
      | some n =>
        simp only [enough, Option.any_some, Option.map_some, List.length_cons, List.mem_cons,
          Bool.or_eq_false_iff, decide_eq_false_iff_not, not_or] at h ⊢
        exact ⟨by omega, h.2.2⟩
    simp only [List.cons_append, upTo, if_neg h0, if_neg hb, ih hs, List.length_cons]
    cases limit with
    | none => rfl
    | some n => simp [Nat.sub_sub, Nat.add_comm]

theorem length_upTo_le (limit : Option ℕ) (s : Bytes) : (upTo limit s).length ≤ s.length := by
  induction s generalizing limit with
  | nil => simp [upTo]
  | cons b s ih =>
    simp only [upTo]
    split_ifs
    · simp
    · simp
    · simpa using ih _

theorem enough_append {limit : Option ℕ} {s : Bytes} (h : enough limit s = true) (t : Bytes) :
    enough limit (s ++ t) = true := by
  simp only [enough, Bool.or_eq_true, Option.any_eq_true, decide_eq_true_eq,
    List.length_append, List.mem_append] at h ⊢
  rcases h with ⟨n, hn, h⟩ | h
  · exact Or.inl ⟨n, hn, by omega⟩
  · exact Or.inr (Or.inl h)

theorem enough_append_of_not {limit : Option ℕ} {s : Bytes} (h : enough limit s = false)
    (t : Bytes) : enough limit (s ++ t) = enough (limit.map (· - s.length)) t := by
  cases limit with
  | none =>
    simp only [enough, Option.any_none, Bool.false_or, decide_eq_false_iff_not,
      Option.map_none, List.mem_append] at h ⊢
    simp [h]
  | some n =>
    simp only [enough, Option.any_some, Option.map_some, Bool.or_eq_false_iff,
      decide_eq_false_iff_not, List.length_append, List.mem_append] at h ⊢
    congr 1
    · apply decide_eq_decide.2
      omega
    · simp [h.2]

/-- The pieces do not matter. -/
theorem readPieces_spec (limit : Option ℕ) (buffer : Bytes) (pieces : List Bytes) :
    let s := buffer ++ pieces.flatten
    let r := readPieces limit buffer pieces
    r.2.2.2 = !enough limit s ∧
      r.1 = (if enough limit s then upTo limit s else s) ∧
      r.2.1 ++ r.2.2.1.flatten = if enough limit s then s.drop (upTo limit s).length else [] := by
  induction pieces generalizing limit buffer with
  | nil =>
    simp only [List.flatten_nil, List.append_nil, readPieces]
    cases h : enough limit buffer with
    | true => simp
    | false => simp
  | cons piece pieces ih =>
    simp only [List.flatten_cons, readPieces]
    cases h : enough limit buffer with
    | true =>
      rw [enough_append h, upTo_append h]
      simp only [if_true, List.flatten_cons]
      refine ⟨rfl, trivial, ?_⟩
      rw [List.drop_append_of_le_length (length_upTo_le _ _)]
    | false =>
      obtain ⟨hended, hline, hrest⟩ := ih (limit.map (· - buffer.length)) piece
      rw [enough_append_of_not h, upTo_append_of_not h]
      simp only [Bool.false_eq_true, if_false]
      refine ⟨hended, ?_, ?_⟩
      · rw [hline]
        split_ifs
        · rfl
        · rfl
      · rw [hrest]
        split_ifs
        · rw [List.length_append, List.drop_length_add_append]
        · rfl

theorem readUntil_eq (limit : Option ℕ) (r : Reader) :
    (r.readUntil limit).1 = (readBytes limit r.ending r.bytes).1 ∧
      (r.readUntil limit).2.bytes = (readBytes limit r.ending r.bytes).2 ∧
      (r.readUntil limit).2.ending = r.ending := by
  obtain ⟨hended, hline, hrest⟩ := readPieces_spec limit r.buffer r.pieces
  unfold Reader.readUntil readBytes
  generalize readPieces limit r.buffer r.pieces = result at hended hline hrest
  obtain ⟨line, buffer, pieces, ended⟩ := result
  simp only at hended hline hrest
  unfold Reader.bytes
  subst hended hline
  simp only [hrest]
  cases enough limit (r.buffer ++ r.pieces.flatten) with
  | true => simp
  | false => cases r.ending <;> simp

/-- Take a number of bytes, if they come. -/
def takePieces (n : ℕ) (buffer : Bytes) : List Bytes → Option Bytes × Bytes × List Bytes
  | [] =>
      if n ≤ buffer.length then (some (buffer.take n), buffer.drop n, []) else (none, [], [])
  | piece :: pieces =>
      if n ≤ buffer.length then (some (buffer.take n), buffer.drop n, piece :: pieces)
      else
        let (taken, rest) := takePieces (n - buffer.length) piece pieces
        (taken.map (buffer ++ ·), rest)

/-- `read_exact`. -/
def Reader.readExact (n : ℕ) (r : Reader) : Except String Bytes × Reader :=
  match takePieces n r.buffer r.pieces with
  | (some taken, buffer, pieces) => (.ok taken, ⟨buffer, pieces, r.ending⟩)
  | (none, buffer, pieces) =>
      (.error (r.ending.getD "failed to fill whole buffer"), ⟨buffer, pieces, r.ending⟩)

theorem takePieces_spec (n : ℕ) (buffer : Bytes) (pieces : List Bytes) :
    let s := buffer ++ pieces.flatten
    let r := takePieces n buffer pieces
    r.1 = (if n ≤ s.length then some (s.take n) else none) ∧
      r.2.1 ++ r.2.2.flatten = if n ≤ s.length then s.drop n else [] := by
  induction pieces generalizing n buffer with
  | nil =>
    simp only [List.flatten_nil, List.append_nil, takePieces]
    split_ifs
    · simp
    · simp
  | cons piece pieces ih =>
    simp only [List.flatten_cons, takePieces]
    by_cases h : n ≤ buffer.length
    · have hs : n ≤ (buffer ++ (piece ++ pieces.flatten)).length := by
        rw [List.length_append]
        omega
      rw [if_pos h, if_pos hs, if_pos hs, List.take_append_of_le_length h,
        List.drop_append_of_le_length h]
      simp
    · obtain ⟨htaken, hrest⟩ := ih (n - buffer.length) piece
      have hn : n = buffer.length + (n - buffer.length) := by omega
      have hs : n ≤ (buffer ++ (piece ++ pieces.flatten)).length ↔
          n - buffer.length ≤ (piece ++ pieces.flatten).length := by
        rw [List.length_append]
        omega
      rw [if_neg h]
      simp only [hs, htaken, hrest]
      split_ifs
      · rw [hn, List.take_length_add_append, List.drop_length_add_append, Nat.add_sub_cancel_left]
        simp
      · simp

theorem readExact_eq {r r' : Reader} (n : ℕ) (hbytes : r.bytes = r'.bytes)
    (hending : r.ending = r'.ending) :
    (r.readExact n).1 = (r'.readExact n).1 ∧
      (r.readExact n).2.bytes = (r'.readExact n).2.bytes ∧
      (r.readExact n).2.ending = (r'.readExact n).2.ending := by
  obtain ⟨htaken, hrest⟩ := takePieces_spec n r.buffer r.pieces
  obtain ⟨htaken', hrest'⟩ := takePieces_spec n r'.buffer r'.pieces
  unfold Reader.bytes at hbytes
  rw [hbytes] at htaken hrest
  have hsame := htaken.trans htaken'.symm
  have hsame' := hrest.trans hrest'.symm
  unfold Reader.readExact
  generalize takePieces n r.buffer r.pieces = x at hsame hsame'
  generalize takePieces n r'.buffer r'.pieces = y at hsame hsame'
  obtain ⟨taken, buffer, pieces⟩ := x
  obtain ⟨taken', buffer', pieces'⟩ := y
  simp only at hsame hsame'
  subst hsame
  cases taken with
  | none => exact ⟨by rw [hending], hsame', hending⟩
  | some taken => exact ⟨rfl, hsame', hending⟩

/-- Read a line of at most so many bytes as text, and how many there were. -/
def Reader.readLine (limit : Option ℕ) (r : Reader) : Except String (ℕ × List Char) × Reader :=
  match r.readUntil limit with
  | (.ok line, r) =>
      (match Utf8.decode line with
        | some text => .ok (line.length, text)
        | none => .error "stream did not contain valid UTF-8", r)
  | (.error error, r) => (.error error, r)

/-! ### Talking -/

/-- A connection. -/
structure Conn where
  reader : Reader
  /-- What the peer sends under protection, if the handshake goes through. -/
  secure : Option Source
  /-- The error of every write. -/
  broken : Option String
  isProtected : Bool
  deriving DecidableEq

/-- What is outside: the outcome of connecting and of setting TLS up. -/
structure Network where
  connected : Except String Unit
  tls : Except String Unit

/-- What was written, and whether it was protected. -/
abbrev Entry := Bool × Bytes

/-- A program that talks to a peer. -/
def Talk (ε α : Type) : Type := Conn → (Except ε α × Conn) × List Entry

variable {ε ε' α β γ : Type}

namespace Talk

/-- One program after another. -/
def bind (m : Talk ε α) (f : α → Talk ε β) : Talk ε β := fun c =>
  match m c with
  | ((.ok a, c'), log) => ((f a c').1, log ++ (f a c').2)
  | ((.error e, c'), log) => ((.error e, c'), log)

instance : Monad (Talk ε) where
  pure a := fun c => ((.ok a, c), [])
  bind := bind

/-- End with an error. -/
def fail (e : ε) : Talk ε α := fun c => ((.error e, c), [])

/-- A result without talking. -/
def ofExcept (r : Except ε α) : Talk ε α := fun c => ((r, c), [])

/-- The outcome as a value. -/
def attempt (m : Talk ε α) : Talk ε' (Except ε α) := fun c =>
  match m c with
  | ((r, c'), log) => ((.ok r, c'), log)

/-- Send octets. -/
def write (wrap : String → ε) (s : Bytes) : Talk ε Unit := fun c =>
  match c.broken with
  | some error => ((.error (wrap error), c), [])
  | none => ((.ok (), c), [(c.isProtected, s)])

/-- Take from the reader. -/
def receive (f : Reader → Except ε α × Reader) : Talk ε α := fun c =>
  match f c.reader with
  | (r, reader) => ((r, { c with reader }), [])

/-- How many bytes are to come. -/
def pending : Talk ε ℕ := receive fun r => (.ok r.bytes.length, r)

/-- What has been read ahead. -/
def ahead : Talk ε Bytes := fun c => ((.ok c.reader.buffer, c), [])

/-- Put the stream under protection.  The handshake fails on bytes that are still unread; the reader
may keep what it has read ahead. -/
def protect (keep : Bool) : Talk ε Unit := fun c =>
  let buffer := if keep then c.reader.buffer else []
  match c.reader.pieces, c.secure with
  | [], some source =>
      ((.ok (), { c with
        reader := ⟨buffer, source.pieces, source.ending⟩, isProtected := true }), [])
  | _, _ =>
      ((.ok (), { c with
        reader := ⟨buffer, [], some "handshake failed"⟩, broken := some "handshake failed",
        isProtected := true }), [])

/-- Talk until the body ends the loop. -/
def loop (e : ε) (body : α → Talk ε (α ⊕ β)) : ℕ → α → Talk ε β
  | 0, _ => fail e
  | fuel + 1, a => do
      match ← body a with
      | .inl a => loop e body fuel a
      | .inr b => pure b

end Talk

open Talk

theorem run_bind (m : Talk ε α) (f : α → Talk ε β) (c : Conn) :
    (m >>= f) c = match m c with
      | ((.ok a, c'), log) => ((f a c').1, log ++ (f a c').2)
      | ((.error e, c'), log) => ((.error e, c'), log) := rfl

theorem run_bind_ok {m : Talk ε α} {f : α → Talk ε β} {c c' : Conn} {a : α}
    (h : (m c).1 = (.ok a, c')) : ((m >>= f) c).1 = (f a c').1 := by
  rw [run_bind]
  generalize m c = run at h
  obtain ⟨result, log⟩ := run
  simp only at h
  subst h
  rfl

theorem run_bind_error {m : Talk ε α} {f : α → Talk ε β} {c c' : Conn} {e : ε}
    (h : (m c).1 = (.error e, c')) : ((m >>= f) c).1 = (.error e, c') := by
  rw [run_bind]
  generalize m c = run at h
  obtain ⟨result, log⟩ := run
  simp only at h
  subst h
  rfl

theorem attempt_eq {m : Talk ε α} {c c' : Conn} {r : Except ε α} (h : (m c).1 = (r, c')) :
    (attempt m c : (Except ε' (Except ε α) × Conn) × List Entry).1 = (.ok r, c') := by
  show (Except.ok (m c).1.1, (m c).1.2) = _
  rw [h]

theorem run_attempt (m : Talk ε α) (c : Conn) :
    (attempt m : Talk ε' (Except ε α)) c = ((.ok (m c).1.1, (m c).1.2), (m c).2) := rfl

protected theorem Talk.pure_bind (a : α) (f : α → Talk ε β) : (pure a >>= f) = f a := by
  funext c
  rw [run_bind]
  rfl

protected theorem Talk.bind_pure (m : Talk ε α) : (m >>= pure) = m := by
  funext c
  rw [run_bind]
  rcases m c with ⟨⟨_ | a, c'⟩, log⟩
  · rfl
  · show (_, log ++ []) = _
    rw [List.append_nil]
    rfl

protected theorem Talk.bind_assoc (m : Talk ε α) (f : α → Talk ε β) (g : β → Talk ε γ) :
    (m >>= f >>= g) = m >>= fun a => f a >>= g := by
  funext c
  rw [run_bind, run_bind, run_bind]
  rcases m c with ⟨⟨_ | a, c'⟩, log⟩
  · rfl
  · simp only
    rw [run_bind]
    rcases f a c' with ⟨⟨_ | b, c''⟩, log'⟩
    · rfl
    · simp only [List.append_assoc]

instance : LawfulMonad (Talk ε) :=
  LawfulMonad.mk' _ Talk.bind_pure Talk.pure_bind Talk.bind_assoc

/-- A write that goes through leaves the connection as it is. -/
theorem write_eq {wrap : String → ε} {s : Bytes} {c : Conn} (h : c.broken = none) :
    (write wrap s c).1 = (.ok (), c) := by
  unfold write
  rw [h]

theorem run_write_bind {wrap : String → ε} {s : Bytes} {f : Unit → Talk ε β} {c : Conn}
    (h : c.broken = none) : ((write wrap s >>= f) c).1 = (f () c).1 :=
  run_bind_ok (write_eq h)

theorem write_bind {wrap : String → ε} {s : Bytes} {f : Unit → Talk ε β} {c : Conn}
    (h : c.broken = none) :
    (write wrap s >>= f) c = ((f () c).1, (c.isProtected, s) :: (f () c).2) := by
  rw [run_bind, Talk.write, h]
  rfl

theorem ofExcept_bind (a : α) (f : α → Talk ε β) : (Talk.ofExcept (.ok a) >>= f) = f a := rfl

theorem mem_bind_left {m : Talk ε α} {f : α → Talk ε β} {c : Conn} {e : Entry} (h : e ∈ (m c).2) :
    e ∈ ((m >>= f) c).2 := by
  rw [run_bind]
  generalize m c = run at h
  obtain ⟨⟨r, c'⟩, log⟩ := run
  cases r with
  | error _ => exact h
  | ok a => exact List.mem_append_left _ h

theorem mem_bind_right {m : Talk ε α} {f : α → Talk ε β} {c c' : Conn} {e : Entry} {a : α}
    (hm : (m c).1 = (.ok a, c')) (h : e ∈ (f a c').2) : e ∈ ((m >>= f) c).2 := by
  rw [run_bind]
  generalize m c = run at hm
  obtain ⟨result, log⟩ := run
  simp only at hm
  subst hm
  exact List.mem_append_right _ h

theorem mem_write {wrap : String → ε} {s : Bytes} {c : Conn} (h : c.broken = none) :
    (c.isProtected, s) ∈ (write wrap s c).2 := by
  unfold write
  rw [h]
  exact List.mem_singleton.2 rfl

/-- The handshake goes through, or the connection is broken. -/
theorem protect_cases (keep : Bool) (c : Conn) :
    (c.reader.pieces = [] ∧ ∃ source, c.secure = some source ∧
      (protect keep : Talk ε Unit) c = ((.ok (), { c with
        reader := ⟨if keep then c.reader.buffer else [], source.pieces, source.ending⟩,
        isProtected := true }), [])) ∨
    ∃ reader, (protect keep : Talk ε Unit) c = ((.ok (), { c with
      reader, broken := some "handshake failed", isProtected := true }), []) := by
  unfold Talk.protect
  cases hpieces : c.reader.pieces with
  | cons piece pieces => exact Or.inr ⟨_, rfl⟩
  | nil =>
    cases hsecure : c.secure with
    | none => exact Or.inr ⟨_, rfl⟩
    | some source => exact Or.inl ⟨rfl, source, rfl, rfl⟩

/-! ### What is written -/

/-- All of a connection but its reader. -/
def Conn.status (c : Conn) : Option Source × Option String × Bool :=
  (c.secure, c.broken, c.isProtected)

/-- Whatever the program writes is in `B`, on the stream as it was at the start. -/
def Says (B : Bytes → Prop) (m : Talk ε α) : Prop :=
  ∀ c, (m c).1.2.status = c.status ∧ ∀ e ∈ (m c).2, e.1 = c.isProtected ∧ B e.2

section Says

variable {B B' : Bytes → Prop} {m : Talk ε α}

theorem Says.mono (h : Says B m) (hB : ∀ s, B s → B' s) : Says B' m :=
  fun c => ⟨(h c).1, fun e he => ⟨((h c).2 e he).1, hB _ ((h c).2 e he).2⟩⟩

/-- A program that writes nothing and leaves all but the reader as it is. -/
theorem Says.of_silent (h : ∀ c, (m c).1.2.status = c.status ∧ (m c).2 = []) : Says B m := by
  intro c
  refine ⟨(h c).1, fun e he => ?_⟩
  rw [(h c).2] at he
  cases he

theorem Says.pure {a : α} : Says B (pure a : Talk ε α) := Says.of_silent fun _ => ⟨rfl, rfl⟩

theorem Says.fail {e : ε} : Says B (fail e : Talk ε α) := Says.of_silent fun _ => ⟨rfl, rfl⟩

theorem Says.ofExcept {r : Except ε α} : Says B (ofExcept r) := Says.of_silent fun _ => ⟨rfl, rfl⟩

theorem Says.ahead : Says B (ahead : Talk ε Bytes) := Says.of_silent fun _ => ⟨rfl, rfl⟩

theorem Says.receive {f : Reader → Except ε α × Reader} : Says B (receive f) :=
  Says.of_silent fun _ => ⟨rfl, rfl⟩

theorem Says.pending : Says B (pending : Talk ε ℕ) := Says.receive

theorem Says.write {wrap : String → ε} {s : Bytes} (h : B s) : Says B (write wrap s) := by
  intro c
  unfold Talk.write
  cases c.broken with
  | some error => exact ⟨rfl, fun _ he => absurd he (List.not_mem_nil)⟩
  | none =>
    refine ⟨rfl, fun e he => ?_⟩
    rw [List.mem_singleton.1 he]
    exact ⟨rfl, h⟩

theorem Says.bind {f : α → Talk ε β} (hm : Says B m) (hf : ∀ a, Says B (f a)) :
    Says B (m >>= f) := by
  intro c
  obtain ⟨hstay, hlog⟩ := hm c
  rw [run_bind]
  generalize m c = run at hstay hlog
  obtain ⟨⟨r, c'⟩, log⟩ := run
  cases r with
  | error e => exact ⟨hstay, hlog⟩
  | ok a =>
    obtain ⟨hstay', hlog'⟩ := hf a c'
    refine ⟨hstay'.trans hstay, fun e he => ?_⟩
    rcases List.mem_append.1 he with he | he
    · exact hlog e he
    · rw [← show c'.isProtected = c.isProtected from congrArg (·.2.2) hstay]
      exact hlog' e he

theorem Says.attempt (h : Says B m) : Says B (attempt m : Talk ε' (Except ε α)) := by
  intro c
  have hc := h c
  unfold Talk.attempt
  generalize m c = run at hc
  exact hc

theorem Says.loop {e : ε} {body : α → Talk ε (α ⊕ β)} (h : ∀ a, Says B (body a)) (fuel : ℕ)
    (a : α) : Says B (loop e body fuel a) := by
  induction fuel generalizing a with
  | zero => exact Says.fail
  | succ fuel ih =>
    refine Says.bind (h a) fun r => ?_
    cases r with
    | inl a => exact ih a
    | inr b => exact Says.pure

theorem Says.forM {f : α → Talk ε Unit} {l : List α} (h : ∀ a ∈ l, Says B (f a)) :
    Says B (l.forM f) := by
  induction l with
  | nil => exact Says.pure
  | cons a l ih =>
    exact Says.bind (h a (List.mem_cons_self ..)) fun _ =>
      ih fun a ha => h a (List.mem_cons_of_mem _ ha)

end Says

/-- Whatever the program writes is in `B`. -/
def Writes (B : Bytes → Prop) (m : Talk ε α) : Prop := ∀ c, ∀ e ∈ (m c).2, B e.2

section Writes

variable {B : Bytes → Prop} {m : Talk ε α}

theorem Writes.of_saying (h : Says B m) : Writes B m := fun c e he => ((h c).2 e he).2

theorem Writes.protect {keep : Bool} : Writes B (protect keep : Talk ε Unit) := by
  intro c e he
  obtain ⟨-, source, -, hrun⟩ | ⟨reader, hrun⟩ := protect_cases (ε := ε) keep c
  · rw [hrun] at he
    cases he
  · rw [hrun] at he
    cases he

theorem Writes.bind {f : α → Talk ε β} (hm : Writes B m) (hf : ∀ a, Writes B (f a)) :
    Writes B (m >>= f) := by
  intro c e he
  have hlog := hm c
  rw [run_bind] at he
  generalize m c = run at he hlog
  obtain ⟨⟨r, c'⟩, log⟩ := run
  cases r with
  | error error => exact hlog e he
  | ok a =>
    rcases List.mem_append.1 he with he | he
    · exact hlog e he
    · exact hf a c' e he

end Writes

/-! ### What is written before protection -/

/-- What is written without protection is in `B`, and protection is not given up. -/
def Guards (B : Bytes → Prop) (m : Talk ε α) : Prop :=
  ∀ c, (c.isProtected = true → (m c).1.2.isProtected = true) ∧
    ∀ e ∈ (m c).2, e.1 = true ∨ B e.2

/-- Where the program returns, the stream is protected. -/
def Secures (m : Talk ε α) : Prop :=
  ∀ c a, (m c).1.1 = .ok a → (m c).1.2.isProtected = true

section Guards

variable {B : Bytes → Prop} {m : Talk ε α} {f : α → Talk ε β}

theorem Says.isProtected (h : Says B m) (c : Conn) :
    (m c).1.2.isProtected = c.isProtected := congrArg (·.2.2) (h c).1

theorem Guards.of_saying (h : Says B m) : Guards B m := by
  intro c
  constructor
  · intro hc
    rw [h.isProtected, hc]
  · intro e he
    exact Or.inr ((h c).2 e he).2

theorem Guards.protect {keep : Bool} : Guards B (protect keep : Talk ε Unit) := by
  intro c
  rcases protect_cases (ε := ε) keep c with ⟨-, source, -, h⟩ | ⟨reader, h⟩
  · rw [h]
    exact ⟨fun _ => rfl, fun _ he => absurd he List.not_mem_nil⟩
  · rw [h]
    exact ⟨fun _ => rfl, fun _ he => absurd he List.not_mem_nil⟩

theorem Guards.bind (hm : Guards B m) (hf : ∀ a, Guards B (f a)) : Guards B (m >>= f) := by
  intro c
  obtain ⟨hstay, hlog⟩ := hm c
  rw [run_bind]
  generalize m c = run at hstay hlog
  obtain ⟨⟨r, c'⟩, log⟩ := run
  cases r with
  | error e => exact ⟨hstay, hlog⟩
  | ok a =>
    refine ⟨fun hc => (hf a c').1 (hstay hc), fun e he => ?_⟩
    rcases List.mem_append.1 he with he | he
    · exact hlog e he
    · exact (hf a c').2 e he

theorem Guards.ofExcept_bind {r : Except ε α} (hf : ∀ a, r = .ok a → Guards B (f a)) :
    Guards B (Talk.ofExcept r >>= f) := by
  cases r with
  | error e => exact Guards.of_saying (Says.of_silent fun _ => ⟨rfl, rfl⟩)
  | ok a => exact hf a rfl

/-- Under protection the program may write what it likes. -/
theorem Guards.bind_secured (hm : Guards B m) (hsecured : Secures m)
    (hf : ∀ a, Says (fun _ => True) (f a)) : Guards B (m >>= f) := by
  intro c
  obtain ⟨hstay, hlog⟩ := hm c
  have hafter := hsecured c
  rw [run_bind]
  generalize m c = run at hstay hlog hafter
  obtain ⟨⟨r, c'⟩, log⟩ := run
  cases r with
  | error e => exact ⟨hstay, hlog⟩
  | ok a =>
    have hc' : c'.isProtected = true := hafter a rfl
    refine ⟨fun _ => ((hf a).isProtected c').trans hc', fun e he => ?_⟩
    rcases List.mem_append.1 he with he | he
    · exact hlog e he
    · exact Or.inl (((hf a c').2 e he).1.trans hc')

theorem Secures.protect {keep : Bool} : Secures (protect keep : Talk ε Unit) := by
  intro c _ _
  rcases protect_cases (ε := ε) keep c with ⟨-, source, -, h⟩ | ⟨reader, h⟩
  · rw [h]
  · rw [h]

theorem Secures.fail {e : ε} : Secures (fail e : Talk ε α) := by
  intro c a h
  cases h

theorem Secures.bind (hf : ∀ a, Secures (f a)) : Secures (m >>= f) := by
  intro c b h
  rw [run_bind] at h ⊢
  generalize m c = run at h
  obtain ⟨⟨r, c'⟩, log⟩ := run
  cases r with
  | error e => cases h
  | ok a => exact hf a c' b h

theorem Secures.bind_left (hm : Secures m) (hf : ∀ a, Guards B (f a)) :
    Secures (m >>= f) := by
  intro c b h
  have hafter := hm c
  rw [run_bind] at h ⊢
  generalize m c = run at h hafter
  obtain ⟨⟨r, c'⟩, log⟩ := run
  cases r with
  | error e => cases h
  | ok a => exact (hf a c').1 (hafter a rfl)

end Guards

/-! ### What the program depends on -/

/-- A relation of readers that no read can tell apart. -/
structure Readable (R : Reader → Reader → Prop) : Prop where
  length : ∀ {r r'}, R r r' → r.bytes.length = r'.bytes.length
  readUntil : ∀ limit {r r'}, R r r' →
    (r.readUntil limit).1 = (r'.readUntil limit).1 ∧
      R (r.readUntil limit).2 (r'.readUntil limit).2
  readExact : ∀ n {r r'}, R r r' →
    (r.readExact n).1 = (r'.readExact n).1 ∧ R (r.readExact n).2 (r'.readExact n).2

theorem readable_eq : Readable Eq where
  length h := by rw [h]
  readUntil limit r r' h := by
    subst h
    exact ⟨rfl, rfl⟩
  readExact n r r' h := by
    subst h
    exact ⟨rfl, rfl⟩

/-- The same bytes are to come. -/
def Reader.Alike (r r' : Reader) : Prop := r.bytes = r'.bytes ∧ r.ending = r'.ending

theorem readable_alike : Readable Reader.Alike where
  length h := by rw [h.1]
  readUntil limit r r' h := by
    obtain ⟨hresult, hbytes, hending⟩ := readUntil_eq limit r
    obtain ⟨hresult', hbytes', hending'⟩ := readUntil_eq limit r'
    refine ⟨?_, ?_, ?_⟩
    · rw [hresult, hresult', h.1, h.2]
    · rw [hbytes, hbytes', h.1, h.2]
    · rw [hending, hending', h.2]
  readExact n r r' h := readExact_eq n h.1 h.2

theorem Readable.readLine {R : Reader → Reader → Prop} (hR : Readable R) (limit : Option ℕ)
    {r r' : Reader} (h : R r r') :
    (r.readLine limit).1 = (r'.readLine limit).1 ∧
      R (r.readLine limit).2 (r'.readLine limit).2 := by
  obtain ⟨hresult, hreader⟩ := hR.readUntil limit h
  unfold Reader.readLine
  generalize r.readUntil limit = x at hresult hreader
  generalize r'.readUntil limit = y at hresult hreader
  obtain ⟨line, d⟩ := x
  obtain ⟨line', d'⟩ := y
  simp only at hresult hreader
  subst hresult
  cases line with
  | error error => exact ⟨rfl, hreader⟩
  | ok line => exact ⟨rfl, hreader⟩

/-- Only the readers differ, and not by more than `R`. -/
structure Conn.Alike (R : Reader → Reader → Prop) (c c' : Conn) : Prop where
  reader : R c.reader c'.reader
  broken : c.broken = c'.broken
  isProtected : c.isProtected = c'.isProtected

/-- On alike connections the program returns and writes the same. -/
def Respects (R : Reader → Reader → Prop) (m : Talk ε α) : Prop :=
  ∀ c c' : Conn, c.Alike R c' →
    (m c).1.1 = (m c').1.1 ∧ (m c).1.2.Alike R (m c').1.2 ∧ (m c).2 = (m c').2

section Respects

variable {R : Reader → Reader → Prop} {m : Talk ε α}

theorem Respects.pure {a : α} : Respects R (pure a : Talk ε α) := fun _ _ h => ⟨rfl, h, rfl⟩

theorem Respects.fail {e : ε} : Respects R (fail e : Talk ε α) := fun _ _ h => ⟨rfl, h, rfl⟩

theorem Respects.ofExcept {r : Except ε α} : Respects R (ofExcept r) :=
  fun _ _ h => ⟨rfl, h, rfl⟩

theorem Respects.write {wrap : String → ε} {s : Bytes} : Respects R (write wrap s) := by
  intro c c' h
  unfold Talk.write
  rw [h.broken, h.isProtected]
  cases c'.broken with
  | some error => exact ⟨rfl, h, rfl⟩
  | none => exact ⟨rfl, h, rfl⟩

theorem Respects.receive {f : Reader → Except ε α × Reader}
    (hf : ∀ r r', R r r' → (f r).1 = (f r').1 ∧ R (f r).2 (f r').2) : Respects R (receive f) := by
  intro c c' h
  obtain ⟨hresult, hreader⟩ := hf c.reader c'.reader h.reader
  exact ⟨hresult, ⟨hreader, h.broken, h.isProtected⟩, rfl⟩

theorem Respects.pending (hR : Readable R) : Respects R (pending : Talk ε ℕ) :=
  Respects.receive fun _ _ h => ⟨by simp only [hR.length h], h⟩

theorem Respects.ahead : Respects Eq (ahead : Talk ε Bytes) :=
  fun c c' h => ⟨by simp only [Talk.ahead, h.reader], h, rfl⟩

theorem Respects.bind {f : α → Talk ε β} (hm : Respects R m) (hf : ∀ a, Respects R (f a)) :
    Respects R (m >>= f) := by
  intro c c' h
  obtain ⟨hresult, halike, hlog⟩ := hm c c' h
  rw [run_bind, run_bind]
  generalize m c = x at hresult halike hlog
  generalize m c' = y at hresult halike hlog
  obtain ⟨⟨r, d⟩, log⟩ := x
  obtain ⟨⟨r', d'⟩, log'⟩ := y
  simp only at hresult hlog
  subst hresult hlog
  cases r with
  | error e => exact ⟨rfl, halike, rfl⟩
  | ok a =>
    obtain ⟨hresult', halike', hlog'⟩ := hf a d d' halike
    exact ⟨hresult', halike', by simp only [hlog']⟩

theorem Respects.attempt (h : Respects R m) : Respects R (attempt m : Talk ε' (Except ε α)) := by
  intro c c' hc
  obtain ⟨hresult, halike, hlog⟩ := h c c' hc
  exact ⟨congrArg Except.ok hresult, halike, hlog⟩

theorem Respects.loop {e : ε} {body : α → Talk ε (α ⊕ β)} (h : ∀ a, Respects R (body a))
    (fuel : ℕ) (a : α) : Respects R (loop e body fuel a) := by
  induction fuel generalizing a with
  | zero => exact Respects.fail
  | succ fuel ih =>
    refine Respects.bind (h a) fun r => ?_
    cases r with
    | inl a => exact ih a
    | inr b => exact Respects.pure

theorem Respects.forM {f : α → Talk ε Unit} {l : List α} (h : ∀ a ∈ l, Respects R (f a)) :
    Respects R (l.forM f) := by
  induction l with
  | nil => exact Respects.pure
  | cons a l ih =>
    exact Respects.bind (h a (List.mem_cons_self ..)) fun _ =>
      ih fun a ha => h a (List.mem_cons_of_mem _ ha)

end Respects

/-! ### Upgrading -/

/-- The same bytes come under protection. -/
def Source.Alike (s s' : Source) : Prop :=
  s.pieces.flatten = s'.pieces.flatten ∧ s.ending = s'.ending

/-- A connection before its upgrade. -/
def start (plain : Reader) (source : Source) : Conn := ⟨plain, some source, none, false⟩

/-- A connection after its upgrade, with what the reader kept. -/
def under (buffer : Bytes) (source : Source) : Conn :=
  ⟨⟨buffer, source.pieces, source.ending⟩, some source, none, true⟩

/-- The handshake went through. -/
def Conn.Upgraded (c : Conn) : Prop := c.isProtected = true ∧ c.broken = none

theorem under_alike {s s' : Source} (h : s.Alike s') (buffer : Bytes) :
    (under buffer s).Alike Reader.Alike (under buffer s') :=
  ⟨⟨congrArg (buffer ++ ·) h.1, h.2⟩, rfl, rfl⟩

/-- What is to come under protection does not matter before. -/
theorem plain_run {m : Talk ε α} {B : Bytes → Prop} (hsay : Says B m) (hrespects : Respects Eq m)
    (plain : Reader) :
    ∃ r reader, ∀ source, (m (start plain source)).1 = (r, start reader source) := by
  let run := m (start plain ⟨[], none⟩)
  refine ⟨run.1.1, run.1.2.reader, fun source => ?_⟩
  obtain ⟨hresult, halike, -⟩ := hrespects (start plain source) (start plain ⟨[], none⟩) ⟨rfl, rfl, rfl⟩
  have hstatus := (hsay (start plain source)).1
  have hreader := halike.reader
  show (m (start plain source)).1 = (run.1.1, start run.1.2.reader source)
  generalize m (start plain source) = run' at hresult hreader hstatus
  obtain ⟨⟨r, ⟨reader, secure, broken, isProtected⟩⟩, log⟩ := run'
  simp only [Conn.status, start, Prod.mk.injEq] at hresult hreader hstatus
  obtain ⟨rfl, rfl, rfl⟩ := hstatus
  rw [hresult, hreader]
  rfl

/-- When a program that upgrades has come through the handshake, the rest of it runs on what the
reader kept and what comes under protection. -/
theorem upgraded_run {before : Talk ε α} {rest : α → Talk ε β} {B : Bytes → Prop} {keep : Bool}
    (hsay : Says B before) (hrespects : Respects Eq before) (hrest : ∀ a, Says B (rest a))
    {plain : Reader} {source : Source}
    (h : ((before >>= fun a => protect keep >>= fun _ => rest a)
      (start plain source)).1.2.Upgraded) :
    ∃ a buffer, (keep = false → buffer = []) ∧ ∀ {γ : Type} (rest' : α → Talk ε γ) source',
      ((before >>= fun a => protect keep >>= fun _ => rest' a) (start plain source')).1 =
        (rest' a (under buffer source')).1 := by
  obtain ⟨r, reader, hrun⟩ := plain_run hsay hrespects plain
  have hsplit {γ : Type} (f : α → Talk ε γ) (source' : Source) :
      ((before >>= f) (start plain source')).1 = match r with
        | .ok a => (f a (start reader source')).1
        | .error e => (.error e, start reader source') := by
    cases r with
    | ok a => exact run_bind_ok (hrun source')
    | error e => exact run_bind_error (hrun source')
  rw [hsplit] at h
  cases r with
  | error e => cases h.1
  | ok a =>
    simp only at h hsplit
    have hpieces : reader.pieces = [] := by
      rcases protect_cases (ε := ε) keep (start reader source) with ⟨hpieces, -⟩ | ⟨reader', hbroken⟩
      · exact hpieces
      · rw [run_bind, hbroken] at h
        have hstatus := (hrest a { start reader source with
          reader := reader', broken := some "handshake failed", isProtected := true }).1
        have hend := h.2
        simp only [Conn.status, Prod.mk.injEq] at hstatus
        rw [hstatus.2.1] at hend
        cases hend
    refine ⟨a, if keep then reader.buffer else [], fun hkeep => by simp [hkeep],
      fun rest' source' => ?_⟩
    rw [hsplit, run_bind]
    unfold Talk.protect
    simp only [start, hpieces]
    rfl

/-- The same outcome, and where it is a value the same bytes are to come. -/
def Agree (x y : Except ε α × Conn) : Prop :=
  x.1 = y.1 ∧ ∀ a, x.1 = .ok a → x.2.Alike Reader.Alike y.2

theorem Respects.agree {m : Talk ε α} (h : Respects Reader.Alike m) {c c' : Conn}
    (hc : c.Alike Reader.Alike c') : Agree (m c).1 (m c').1 :=
  ⟨(h c c' hc).1, fun _ _ => (h c c' hc).2.1⟩

theorem Agree.bind {m : Talk ε α} {f : α → Talk ε β} {c c' : Conn} (h : Agree (m c).1 (m c').1)
    (hf : ∀ a, Respects Reader.Alike (f a)) : Agree ((m >>= f) c).1 ((m >>= f) c').1 := by
  rw [run_bind, run_bind]
  generalize m c = x at h
  generalize m c' = y at h
  obtain ⟨⟨r, d⟩, log⟩ := x
  obtain ⟨⟨r', d'⟩, log'⟩ := y
  obtain ⟨hresult, halike⟩ := h
  simp only at hresult
  subst hresult
  cases r with
  | error e => exact ⟨rfl, fun _ h => absurd h (by simp)⟩
  | ok a => exact (hf a).agree (halike a rfl)

/-! ### Loops -/

section Loop

variable {e : ε} {body : α → Talk ε (α ⊕ β)} {a : α} {c c' : Conn}

theorem loop_inl {a' : α} (h : (body a c).1 = (.ok (.inl a'), c')) (fuel : ℕ) :
    (loop e body (fuel + 1) a c).1 = (loop e body fuel a' c').1 := run_bind_ok h

theorem loop_inr {b : β} (h : (body a c).1 = (.ok (.inr b), c')) (fuel : ℕ) :
    (loop e body (fuel + 1) a c).1 = (.ok b, c') := run_bind_ok h

theorem loop_error {e' : ε} (h : (body a c).1 = (.error e', c')) (fuel : ℕ) :
    (loop e body (fuel + 1) a c).1 = (.error e', c') := run_bind_error h

/-- Whatever it returns without an error, the program has taken bytes. -/
def Takes (m : Talk ε α) : Prop :=
  ∀ c a c', (m c).1 = (.ok a, c') → c'.reader.bytes.length < c.reader.bytes.length

/-- A loop of which every round takes bytes does not run out of fuel. -/
theorem loop_ne_error (hbody : ∀ a c, (body a c).1.1 ≠ .error e) (htakes : ∀ a, Takes (body a))
    {fuel : ℕ} {c : Conn} (hfuel : c.reader.bytes.length < fuel) (a : α) :
    (loop e body fuel a c).1.1 ≠ .error e := by
  induction fuel generalizing a c with
  | zero => omega
  | succ fuel ih =>
    rcases hrun : (body a c).1 with ⟨e' | a' | b, c'⟩
    · rw [loop_error hrun]
      have hne := hbody a c
      rw [hrun] at hne
      rintro ⟨⟩
      exact hne rfl
    · rw [loop_inl hrun]
      have hlt := htakes a c _ c' hrun
      exact ih (by omega) a'
    · rw [loop_inr hrun]
      exact nofun

theorem Takes.loop (htakes : ∀ a, Takes (body a)) (fuel : ℕ) (a : α) :
    Takes (loop e body fuel a) := by
  induction fuel generalizing a with
  | zero => exact fun c b d h => by cases h
  | succ fuel ih =>
    intro c b d h
    rcases hrun : (body a c).1 with ⟨e' | a' | b', c'⟩
    · rw [loop_error hrun] at h
      cases h
    · rw [loop_inl hrun] at h
      exact (ih a' c' b d h).trans (htakes a c _ c' hrun)
    · rw [loop_inr hrun] at h
      cases h
      exact htakes a c _ d hrun

end Loop

end Wire
