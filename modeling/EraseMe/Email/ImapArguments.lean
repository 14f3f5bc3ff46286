import EraseMe.Email.Awaiting
import EraseMe.Email.Cleartext
import EraseMe.Library.ModifiedUtf7
import EraseMe.Library.QuotedText
import EraseMe.Library.Utf8Text

/-!
# The arguments of IMAP commands, as a server reads them

The name of a mailbox is written as a quoted string in modified UTF-7 and read back
(`mailbox_survives`).  The credentials of `LOGIN` are put between quotes as they are; they are read
back exactly if they are plain (`login_survives_iff`).
-/

namespace EraseMe.Email.Imap

open Wire Wire.Talk

/-! ### Mailboxes -/

theorem utf16Octets_eq : utf16Octets = Utf16.encodeChar := rfl

/-- A mailbox as a server reads it: a quoted string, in modified UTF-7. -/
def readMailbox (argument : String) : Option String := do
  let (content, rest) ← Quoted.quoted argument.toList
  let folder ← Utf7.decode content
  if rest = [] then some (String.ofList folder) else none

theorem shifted_encode {t : List Char} (ht : t ≠ []) :
    shifted (t.flatMap Utf16.encodeChar) =
      '&' :: Base64.encode Utf7.modified false (t.flatMap Utf16.encodeChar) ++ ['-'] := by
  have hoctets : t.flatMap Utf16.encodeChar ≠ [] := by
    obtain ⟨c, t, rfl⟩ := List.exists_cons_of_ne_nil ht
    simp [Utf16.encodeChar_ne_nil]
  have hcomma : ∀ n < 64, (fun c => if c = '/' then ',' else c)
      (Base64.letter Base64.standard n) = Base64.letter Utf7.modified n := by decide +kernel
  rw [shifted, if_neg hoctets, Base64.map_encode hcomma]

/-- A shifted part reads as what was collected for it. -/
theorem decode_shifted (t s : List Char) :
    Utf7.decode (shifted (t.flatMap Utf16.encodeChar) ++ s) =
      (Utf7.decode s).map (t ++ ·) := by
  by_cases ht : t = []
  · subst ht
    simp [shifted]
  · rw [shifted_encode ht, List.append_assoc, List.singleton_append, List.cons_append,
      Utf7.decode_shift ht]

/-- What is collected and what is still to come both read back. -/
theorem decode_mailboxText (t folder : List Char) :
    Utf7.decode (mailboxText (t.flatMap Utf16.encodeChar) folder) = some (t ++ folder) := by
  induction folder generalizing t with
  | nil =>
    have hdecode := decode_shifted t []
    rwa [List.append_nil] at hdecode
  | cons c folder ih =>
    rw [mailboxText]
    split_ifs with hprintable hampersand
    · have hrest := ih []
      rw [hampersand, List.append_assoc, decode_shifted]
      simp only [List.flatMap_nil, List.nil_append] at hrest
      simp [Utf7.decode_ampersand, hrest]
    · have hrest := ih []
      rw [List.append_assoc, decode_shifted]
      simp only [List.flatMap_nil, List.nil_append] at hrest
      simp [Utf7.decode_printable hprintable hampersand, hrest]
    · have hcollected := ih (t ++ [c])
      simpa [utf16Octets_eq] using hcollected

theorem mem_shifted {octets : Bytes} {c : Char} (h : c ∈ shifted octets) : ' ' ≤ c ∧ c ≤ '~' := by
  have hstandard : ∀ c ∈ Base64.standard, ' ' ≤ c ∧ c ≤ '~' := by decide
  unfold shifted at h
  split_ifs at h
  · cases h
  · simp only [List.cons_append, List.mem_cons, List.mem_append, List.mem_map, List.not_mem_nil,
      or_false] at h
    rcases h with rfl | ⟨d, hd, rfl⟩ | rfl
    · decide
    · split_ifs
      · decide
      · rcases Base64.mem_encode hd with hletter | rfl
        · exact hstandard d hletter
        · decide
    · decide

theorem mem_mailboxText {octets : Bytes} {folder : List Char} {c : Char}
    (h : c ∈ mailboxText octets folder) : ' ' ≤ c ∧ c ≤ '~' := by
  induction folder generalizing octets with
  | nil => exact mem_shifted h
  | cons d folder ih =>
    rw [mailboxText] at h
    split_ifs at h with hprintable hampersand
    · simp only [List.mem_append, List.mem_cons, List.not_mem_nil, or_false] at h
      rcases h with (h | rfl | rfl) | h
      · exact mem_shifted h
      · decide
      · decide
      · exact ih h
    · simp only [List.mem_append, List.mem_cons, List.not_mem_nil, or_false] at h
      rcases h with (h | rfl) | h
      · exact mem_shifted h
      · exact hprintable
      · exact ih h
    · exact ih h

theorem mailboxArgument_eq {folder : String}
    (h : Text.eqIgnoreAsciiCase folder.toList "INBOX".toList = false) :
    (mailboxArgument folder).toList =
      '"' :: (Quoted.escape (mailboxText [] folder.toList) ++ ['"']) := by
  rw [mailboxArgument, h]
  simp [Quoted.escape]

/-- Printable characters can stand in a quoted string. -/
theorem isPlain_of_printable {c : Char} (h : ' ' ≤ c ∧ c ≤ '~') :
    Quoted.isPlain c = true ∨ c = '"' ∨ c = '\\' := by
  by_cases hspecial : c = '"' ∨ c = '\\'
  · exact .inr hspecial
  · have hlow : 32 ≤ c.toNat := Char.le_def.1 h.1
    have hhigh : c.toNat ≤ 126 := Char.le_def.1 h.2
    left
    simp only [Quoted.isPlain, decide_eq_true_eq, List.mem_cons, List.not_mem_nil, or_false]
    refine ⟨by omega, by omega, ?_⟩
    rintro (rfl | rfl | hquote)
    · exact absurd hlow (by decide)
    · exact absurd hlow (by decide)
    · exact hspecial hquote

theorem readMailbox_mailboxArgument {folder : String}
    (h : Text.eqIgnoreAsciiCase folder.toList "INBOX".toList = false) :
    readMailbox (mailboxArgument folder) = some folder := by
  have hquoted : Quoted.quoted (mailboxArgument folder).toList =
      some (mailboxText [] folder.toList, []) := by
    rw [mailboxArgument_eq h]
    exact Quoted.readQuoted_escape (fun c hc => isPlain_of_printable (mem_mailboxText hc)) []
  have hdecode := decode_mailboxText [] folder.toList
  simp only [List.flatMap_nil, List.nil_append] at hdecode
  simp [readMailbox, hquoted, hdecode]

/-- Every mailbox but `INBOX` is written in printable characters as one quoted string, which reads as
the mailbox; no other mailbox is written in the same way. -/
theorem mailbox_survives (folder : String)
    (h : Text.eqIgnoreAsciiCase folder.toList "INBOX".toList = false) :
    (∀ c ∈ (mailboxArgument folder).toList, ' ' ≤ c ∧ c ≤ '~') ∧
      readMailbox (mailboxArgument folder) = some folder ∧
      ∀ other, mailboxArgument other = mailboxArgument folder → other = folder := by
  refine ⟨fun c hc => ?_, readMailbox_mailboxArgument h, fun other hother => ?_⟩
  · rw [mailboxArgument_eq h] at hc
    simp only [Quoted.escape, List.mem_cons, List.mem_append, List.mem_flatMap, List.not_mem_nil,
      or_false] at hc
    rcases hc with rfl | ⟨d, hd, hc⟩ | rfl
    · decide
    · have hd' := mem_mailboxText hd
      split_ifs at hc
      · simp only [List.mem_cons, List.not_mem_nil, or_false] at hc
        rcases hc with rfl | rfl
        · decide
        · exact hd'
      · simp only [List.mem_cons, List.not_mem_nil, or_false] at hc
        exact hc ▸ hd'
    · decide
  · cases hinbox : Text.eqIgnoreAsciiCase other.toList "INBOX".toList with
    | false =>
      have hread := readMailbox_mailboxArgument hinbox
      rw [hother, readMailbox_mailboxArgument h] at hread
      exact (Option.some.inj hread).symm
    | true =>
      -- `INBOX` itself does not start with a quote.
      have hraw : mailboxArgument other = other := if_pos hinbox
      have hchars := congrArg String.toList (hraw.symm.trans hother)
      rw [mailboxArgument_eq h] at hchars
      rw [hchars] at hinbox
      simp [Text.eqIgnoreAsciiCase] at hinbox

theorem mailbox_survives_umlaut :
    let folder := "Entwürfe & \"Ä\\\""
    (∀ c ∈ (mailboxArgument folder).toList, ' ' ≤ c ∧ c ≤ '~') ∧
      readMailbox (mailboxArgument folder) = some folder ∧
      ∀ other, mailboxArgument other = mailboxArgument folder → other = folder :=
  mailbox_survives _ (by decide +kernel)

/-! ### Credentials -/

/-- Two quoted strings, and the end of the line. -/
def readArguments (s : List Char) : Option (String × String) := do
  let (username, rest) ← Quoted.quoted s
  let rest ← Text.stripPrefix [' '] rest
  let (password, rest) ← Quoted.quoted rest
  if rest = ['\r', '\n'] then some (String.ofList username, String.ofList password) else none

/-- The arguments of a `LOGIN` line as a server reads them. -/
def readLogin (tag : ℕ) (bytes : Bytes) : Option (String × String) := do
  let line ← Utf8.decode bytes
  let arguments ← Text.stripPrefix (tagOf tag ++ " LOGIN ".toList) line
  readArguments arguments

/-- One line: it ends in `CRLF` and has no line end before. -/
def IsOneLine (bytes : Bytes) : Prop := ∃ l, bytes = l ++ [13, 10] ∧ 13 ∉ l ∧ 10 ∉ l

/-- The command as it is sent. -/
def loginLineOf (tag : ℕ) (username password : String) : List Char :=
  commandLine tag ("LOGIN \"" ++ username ++ "\" \"" ++ password ++ "\"")

theorem loginLineOf_eq (tag : ℕ) (username password : String) :
    loginLineOf tag username password = (tagOf tag ++ " LOGIN ".toList) ++
      '"' :: (username.toList ++ '"' :: ' ' :: '"' :: (password.toList ++ '"' :: ['\r', '\n'])) := by
  simp [loginLineOf, commandLine]

/-- What `LOGIN` writes: its line, and after a refusal a `LOGOUT`. -/
theorem login_writes (tag : ℕ) (username password : String) {c : Conn} (h : c.broken = none) :
    ∃ later, (login tag username password c).2 =
        (c.isProtected, Utf8.encode (String.ofList (loginLineOf tag username password))) :: later ∧
      ∀ e ∈ later, e.2 = Utf8.encode (String.ofList (commandLine (tag + 1) "LOGOUT")) := by
  refine ⟨(repeatedly (round (loginLine tag)) () c).2, ?_, fun e he => ?_⟩
  · have hwrite : writeCommand tag ("LOGIN \"" ++ username ++ "\" \"" ++ password ++ "\"") c =
        ((.ok (), c), [(c.isProtected,
          Utf8.encode (String.ofList (loginLineOf tag username password)))]) := by
      unfold writeCommand writeLine write
      rw [h]
      rfl
    unfold login
    rw [run_bind, hwrite]
    rfl
  · have hwrites : Says (· = Utf8.encode (String.ofList (commandLine (tag + 1) "LOGOUT")))
        (repeatedly (round (loginLine tag)) ()) := says_loginAnswers rfl
    exact ((hwrites c).2 e he).2

theorem stripPrefix_append (pattern s : List Char) :
    Text.stripPrefix pattern (pattern ++ s) = some s := by
  simp [Text.stripPrefix]

theorem readLogin_loginLineOf (tag : ℕ) (username password : String) :
    readLogin tag (Utf8.encode (String.ofList (loginLineOf tag username password))) =
      readArguments ('"' :: (username.toList ++ '"' :: ' ' :: '"' ::
        (password.toList ++ '"' :: ['\r', '\n']))) := by
  simp only [readLogin, Utf8.decode_encode, loginLineOf_eq, Option.bind_eq_bind, Option.bind_some,
    stripPrefix_append]

/-- Plain credentials are read back. -/
theorem readArguments_of_isPlain {username password : String}
    (hu : Quoted.IsPlain username.toList) (hp : Quoted.IsPlain password.toList) :
    readArguments ('"' :: (username.toList ++ '"' :: ' ' :: '"' ::
      (password.toList ++ '"' :: ['\r', '\n']))) = some (username, password) := by
  have hread {w : List Char} (h : Quoted.IsPlain w) (r : List Char) :
      Quoted.quoted ('"' :: (w ++ '"' :: r)) = some (w, r) := Quoted.readQuoted_of_isPlain h r
  have hblank (r : List Char) : Text.stripPrefix [' '] (' ' :: r) = some r :=
    stripPrefix_append [' '] r
  simp only [readArguments, hread hu, hblank, hread hp, Option.bind_eq_bind, Option.bind_some,
    if_true, String.ofList_toList]

theorem length_stripPrefix {pattern s r : List Char} (h : Text.stripPrefix pattern s = some r) :
    s.length = pattern.length + r.length := by
  unfold Text.stripPrefix at h
  split_ifs at h with hprefix
  cases h
  have hle := (List.isPrefixOf_iff_prefix.1 hprefix).length_le
  rw [List.length_drop]
  omega

theorem exists_of_quoted {s : List Char} {x : List Char × List Char}
    (h : Quoted.quoted s = some x) : ∃ t, s = '"' :: t ∧ Quoted.readQuoted t = some x := by
  unfold Quoted.quoted at h
  split at h
  · next t => exact ⟨t, rfl, h⟩
  · cases h

/-- Credentials that are read back are plain: no character was left over for an escape. -/
theorem isPlain_of_readArguments {username password : String}
    (h : readArguments ('"' :: (username.toList ++ '"' :: ' ' :: '"' ::
      (password.toList ++ '"' :: ['\r', '\n']))) = some (username, password)) :
    Quoted.IsPlain username.toList ∧ Quoted.IsPlain password.toList := by
  simp only [readArguments, Option.bind_eq_bind, Option.bind_eq_some_iff] at h
  obtain ⟨⟨u, r⟩, hu, s, hs, ⟨p, t⟩, hp, h⟩ := h
  simp only at hs h
  split_ifs at h with ht
  cases h
  subst ht
  obtain ⟨s, rfl, hp⟩ := exists_of_quoted hp
  obtain ⟨hule, hplainu⟩ := Quoted.readQuoted_le hu
  obtain ⟨hple, hplainp⟩ := Quoted.readQuoted_le hp
  have hlength := length_stripPrefix hs
  simp only [String.toList_ofList, List.length_append, List.length_cons, List.length_nil]
    at hule hplainu hple hplainp hlength ⊢
  exact ⟨hplainu (by omega), hplainp (by omega)⟩

theorem isOneLine_loginLineOf {username password : String}
    (hu : Quoted.IsPlain username.toList) (hp : Quoted.IsPlain password.toList) (tag : ℕ) :
    IsOneLine (Utf8.encode (String.ofList (loginLineOf tag username password))) := by
  have hplain {w : List Char} (h : Quoted.IsPlain w) : '\r' ∉ w ∧ '\n' ∉ w :=
    ⟨fun hmem => absurd (h _ hmem) (by decide), fun hmem => absurd (h _ hmem) (by decide)⟩
  have htag : '\r' ∉ tagOf tag ∧ '\n' ∉ tagOf tag :=
    ⟨fun hmem => absurd (isMark_tagOf tag _ hmem).2 (by decide),
      fun hmem => absurd (isMark_tagOf tag _ hmem).2 (by decide)⟩
  have hsplit : loginLineOf tag username password =
      (tagOf tag ++ " LOGIN \"".toList ++ username.toList ++ "\" \"".toList ++ password.toList ++
        ['"']) ++ ['\r', '\n'] := by
    simp [loginLineOf, commandLine]
  refine ⟨_, by rw [hsplit, Utf8.encode_ofList_append]; rfl, fun hmem => ?_, fun hmem => ?_⟩
  · have hchar := Utf8.mem_of_mem_encode (by decide) hmem
    simp only [List.mem_append] at hchar
    rcases hchar with ((((h | h) | h) | h) | h) | h
    · exact htag.1 h
    · exact absurd h (by decide)
    · exact (hplain hu).1 h
    · exact absurd h (by decide)
    · exact (hplain hp).1 h
    · exact absurd h (by decide)
  · have hchar := Utf8.mem_of_mem_encode (by decide) hmem
    simp only [List.mem_append] at hchar
    rcases hchar with ((((h | h) | h) | h) | h) | h
    · exact htag.2 h
    · exact absurd h (by decide)
    · exact (hplain hu).2 h
    · exact absurd h (by decide)
    · exact (hplain hp).2 h
    · exact absurd h (by decide)

/-- The credentials arrive as they are, in one line, exactly if they are plain.  Nothing else is said
but a `LOGOUT` after a refusal. -/
theorem login_survives_iff (tag : ℕ) (username password : String) (c : Conn)
    (h : c.broken = none) :
    ∃ bytes later, (login tag username password c).2 = (c.isProtected, bytes) :: later ∧
      (∀ e ∈ later, e.2 = Utf8.encode (String.ofList (commandLine (tag + 1) "LOGOUT"))) ∧
      (IsOneLine bytes ∧ readLogin tag bytes = some (username, password) ↔
        Quoted.IsPlain username.toList ∧ Quoted.IsPlain password.toList) := by
  obtain ⟨later, hfirst, hlater⟩ := login_writes tag username password h
  refine ⟨_, later, hfirst, hlater, ?_⟩
  rw [readLogin_loginLineOf]
  constructor
  · rintro ⟨-, hread⟩
    exact isPlain_of_readArguments hread
  · rintro ⟨hu, hp⟩
    exact ⟨isOneLine_loginLineOf hu hp tag, readArguments_of_isPlain hu hp⟩

theorem login_survives_plain :
    ∃ bytes later, (login 2 "user" "pass" (⟨⟨[], [], none⟩, none, none, true⟩ : Conn)).2 =
        (true, bytes) :: later ∧
      (∀ e ∈ later, e.2 = Utf8.encode (String.ofList (commandLine (2 + 1) "LOGOUT"))) ∧
      (IsOneLine bytes ∧ readLogin 2 bytes = some ("user", "pass") ↔
        Quoted.IsPlain "user".toList ∧ Quoted.IsPlain "pass".toList) :=
  login_survives_iff 2 "user" "pass" ⟨⟨[], [], none⟩, none, none, true⟩ rfl

/-- A password with a quote and a line end is a command of its own. -/
theorem login_injects :
    let password := "a\"\r\nA003 DELETE \"b"
    let bytes := Utf8.encode (String.ofList (loginLineOf 2 "user" password))
    (login 2 "user" password (⟨⟨[], [], none⟩, none, none, true⟩ : Conn)).2 = [(true, bytes)] ∧
      bytes = Utf8.encode "A002 LOGIN \"user\" \"a\"\r\nA003 DELETE \"b\"\r\n" ∧
      readLogin 2 bytes ≠ some ("user", password) := by
  decide +kernel

end EraseMe.Email.Imap
