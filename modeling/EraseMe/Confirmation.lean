import EraseMe.Library.Hex
import EraseMe.Library.Matches
import EraseMe.Library.Slices

/-!
# `confirmation`: links of known brokers

`extractConfirmationLinks` walks over a reply with octet offsets and keeps the links to known broker
hosts.  The links are those of a pattern and a condition on texts (`extractConfirmationLinks_eq`):
every slice is taken at the end of a character, and the host is checked on the text that is
returned.
-/

namespace EraseMe.Confirmation

open Slices

/-- How a walk over a text can stop. -/
inductive Stop
  | offBoundary
  | expectFailed
  | diverged
  deriving DecidableEq, Repr

/-- A slice, or the stop of the program. -/
def checked {α : Type} (slice : Option α) : Except Stop α :=
  match slice with
  | some s => .ok s
  | none => .error .offBoundary

/-- Domains that brokers are known by. -/
def knownBrokerDomains : List (List Char) :=
  ["acxiom.com", "oracle.com", "schufa.de", "beenverified.com", "spokeo.com", "intelius.com",
    "whitepages.com", "mylife.com", "peekyou.com", "pipl.com", "radaris.com",
    "truepeoplesearch.com", "ussearch.com", "peoplefinders.com", "instantcheckmate.com",
    "truthfinder.com", "addresses.com", "anywho.com", "dexknows.com", "meridiandata.us",
    "experian.com", "transunion.com", "equifax.com"].map String.toList

/-- What ends a URL besides quotes. -/
def isGoUrlSeparator (c : Char) : Bool := c ∈ [' ', '\t', '\n', '\r', '\x0c']

/-- The scheme with TLS. -/
def https : List Char := "https://".toList
def http : List Char := "http://".toList

/-! ### One candidate -/

/-- A digit in base sixteen. -/
def isAsciiHexdigit (b : UInt8) : Bool := (Hex.value (Char.ofNat b.toNat)).isSome

/-- Two digits are left, and come next. -/
def twoHexdigits : List UInt8 → Bool
  | x :: y :: _ => isAsciiHexdigit x && isAsciiHexdigit y
  | _ => false

/-- Every `%` has two digits. -/
def hasValidPercentEscapes : List UInt8 → Bool
  | [] => true
  | b :: bytes => (b != 37 || twoHexdigits bytes) && hasValidPercentEscapes bytes

/-- The loop over the path, with a number of rounds. -/
def decodedPathLen (path : List Char) : ℕ → ℕ → ℕ → Except Stop ℕ
  | 0, _, _ => .error .diverged
  | fuel + 1, index, length =>
      match (octets path)[index]? with
      | none => .ok length
      | some b =>
          if b = 37 then decodedPathLen path fuel (index + 3) (length + 1)
          else do
            let rest ← checked (sliceFrom index path)
            match rest with
            | [] => .error .expectFailed
            | c :: _ => decodedPathLen path fuel (index + c.utf8Size) (length + c.utf8Size)

/-- The host and the port, unless there are more colons. -/
def hostAndPort (hostport : List Char) :
    Except Stop (Option (List Char × Option (List Char))) :=
  match Text.splitOnce ':' hostport with
  | some (host, port) => do
      let rest ← checked (sliceFrom (size host + 1) hostport)
      if ':' ∈ rest then return none else return some (host, some port)
  | none => .ok (some (hostport, none))

/-- Whether the authority is a known host, with or without a port. -/
def allowedAuthority (authority : List Char) : Except Stop Bool :=
  if authority = [] ∨ '@' ∈ authority then .ok false
  else if authority.head? = some '[' then .ok false
  else do
    match ← hostAndPort authority with
    | none => return false
    | some (host, port) =>
        if host = [] ∨ (port.any fun port => port ≠ [] ∧
            ¬ (octets port).all fun b => 48 ≤ b ∧ b ≤ 57) then return false
        let host := host.map Char.toLower
        let host := (Text.stripPrefix "www.".toList host).getD host
        return decide (host ∈ knownBrokerDomains)

/-- The length of the decoded path, if the link is allowed. -/
def parseAllowedUrl (candidate : List Char) : Except Stop (Option ℕ) :=
  if ¬ https.isPrefixOf candidate ∨ ¬ hasValidPercentEscapes (octets candidate) ∨
      candidate.any Text.isControl ∨ '\\' ∈ candidate then .ok none
  else do
    let schemeEnd := size https
    let rest ← checked (sliceFrom schemeEnd candidate)
    let authorityEnd := schemeEnd + (offset (fun c => c ∈ ['/', '?', '#']) rest).getD (size rest)
    let authority ← checked (slice schemeEnd authorityEnd candidate)
    if ¬ (← allowedAuthority authority) then return none
    let rest ← checked (sliceFrom authorityEnd candidate)
    let pathEnd := ((offset (fun c => c ∈ ['?', '#']) rest).map (authorityEnd + ·)).getD
      (size candidate)
    let path ← checked (slice authorityEnd pathEnd candidate)
    return some (← decodedPathLen path (size path + 1) 0 0)

/-! ### The walk over the text -/

/-- A candidate without punctuation. -/
def trimCandidate (candidate : List Char) : List Char :=
  candidate.rdropWhile fun c => c ∈ ".,;:!?)]>".toList

/-- Whether a character ends a candidate. -/
def endsCandidate (c : Char) : Bool := isGoUrlSeparator c || c ∈ ['<', '>', '"', '\'']

/-- What was found so far. -/
structure Found where
  links : List (List Char) := []
  seen : List (List Char) := []

/-- Add a candidate that is new. -/
def Found.push (found : Found) (candidate : List Char) : Except Stop Found :=
  if candidate ∈ found.seen then .ok found
  else do
    match ← parseAllowedUrl candidate with
    | some _ => return ⟨found.links ++ [candidate], found.seen ++ [candidate]⟩
    | none => return found

/-- The loop over the text, with a number of rounds. -/
def collect (text : List Char) : ℕ → ℕ → Found → Except Stop (List (List Char))
  | 0, _, _ => .error .diverged
  | fuel + 1, cursor, found => do
      match find "http".toList (← checked (sliceFrom cursor text)) with
      | none => return found.links
      | some relativeStart =>
          let start := cursor + relativeStart
          let rest ← checked (sliceFrom start text)
          let schemeLen :=
            if https.isPrefixOf rest then some (size https)
            else if http.isPrefixOf rest then some (size http)
            else none
          match schemeLen with
          | none => collect text fuel (start + size "http".toList) found
          | some schemeLen =>
              let body ← checked (sliceFrom (start + schemeLen) text)
              let candidateEnd := ((offset endsCandidate body).map (start + schemeLen + ·)).getD
                (size text)
              let candidate ← checked (slice start candidateEnd text)
              let found ← found.push (trimCandidate candidate)
              collect text fuel (max candidateEnd (start + schemeLen)) found

/-- The score of a link: what it was parsed to, and its length. -/
def score (link : List Char) : Except Stop (ℕ × ℕ) := do
  match ← parseAllowedUrl link with
  | some pathLen => return (pathLen, size link)
  | none => .error .expectFailed

/-- The order of the scores. -/
def scoreLe (a b : ℕ × ℕ) : Bool := a.1 < b.1 ∨ a.1 = b.1 ∧ a.2 ≤ b.2

/-- The links with their scores, sorted in a stable way. -/
def extractConfirmationLinks (text : List Char) : Except Stop (List (List Char)) := do
  let links ← collect text (text.length + 1) 0 {}
  let scored ← links.mapM fun link => do return (← score link, link)
  return (scored.mergeSort fun a b => scoreLe a.1 b.1).map Prod.snd

/-! ### What a link is -/

/-- `https?://[^ \t\n\r\f<>"']+` -/
def IsLink (m : List Char) : Prop :=
  ∃ body, body ≠ [] ∧ (∀ c ∈ body, endsCandidate c = false) ∧
    (m = https ++ body ∨ m = http ++ body)

/-- A digit in base sixteen. -/
def IsHex (c : Char) : Prop := (Hex.value c).isSome = true

/-- Every percent sign starts an escape of two hexadecimal digits. -/
def Escaped (s : List Char) : Prop :=
  ∀ a t, s = a ++ '%' :: t → ∃ x y r, t = x :: y :: r ∧ IsHex x ∧ IsHex y

/-- A known host in any case, with or without `www.` in front. -/
def KnownHost (host : List Char) : Prop :=
  host.map Char.toLower ∈ knownBrokerDomains ∨
    ∃ domain ∈ knownBrokerDomains, host.map Char.toLower = "www.".toList ++ domain

/-- What an authority ends before. -/
def Delimited (s : List Char) : Prop := ∀ c ∈ s.head?, c ∈ ['/', '?', '#']

/-- A known host, or a known host with a port. -/
def Addresses (isPort : List Char → Prop) (authority : List Char) : Prop :=
  ∃ host, KnownHost host ∧
    (authority = host ∨ ∃ port, isPort port ∧ authority = host ++ ':' :: port)

/-- What a link is like. -/
structure Allowed (isPort : List Char → Prop) (link : List Char) : Prop where
  control : ∀ c ∈ link, Text.isControl c = false
  backslash : '\\' ∉ link
  escaped : Escaped link
  addresses : ∃ authority rest, link = https ++ (authority ++ rest) ∧
    (∀ c ∈ authority, c ∉ ['/', '?', '#']) ∧ Delimited rest ∧ '@' ∉ authority ∧
    Addresses isPort authority

/-- Any number of digits, also none. -/
def IsPort (port : List Char) : Prop := ∀ c ∈ port, c.isDigit = true

/-- The text after the authority, as far as the query. -/
def pathOf (link : List Char) : List Char :=
  ((link.drop https.length).dropWhile fun c => c ∉ ['/', '?', '#']).takeWhile
    fun c => c ∉ ['?', '#']

/-- The octets of an escaped text. -/
def percentDecode : List Char → List UInt8
  | [] => []
  | '%' :: x :: y :: t =>
      UInt8.ofNat (16 * (Hex.value x).getD 0 + (Hex.value y).getD 0) :: percentDecode t
  | c :: t => String.utf8EncodeChar c ++ percentDecode t

/-- The length of the decoded path, and that of the link. -/
def rank (link : List Char) : ℕ × ℕ := ((percentDecode (pathOf link)).length, size link)

open Classical in
/-- The matches that are allowed when trimmed, once each. -/
noncomputable def kept (isPort : List Char → Prop) (ms : List (List Char)) : List (List Char) :=
  ((ms.map trimCandidate).filter fun link => Allowed isPort link).eraseDups

/-- They are sorted by their ranks in a stable way. -/
noncomputable def ranked (isPort : List Char → Prop) (ms : List (List Char)) : List (List Char) :=
  (kept isPort ms).mergeSort fun a b => scoreLe (rank a) (rank b)

theorem checked_some {α : Type} (s : α) : checked (some s) = .ok s := rfl

theorem ok_bind {α β : Type} (a : α) (f : α → Except Stop β) : (Except.ok a >>= f) = f a := rfl

/-! ### Percent escapes -/

theorem toNat_lt_of_value {c : Char} (h : (Hex.value c).isSome = true) : c.toNat < 128 := by
  by_contra hle
  have hnone : Hex.value c = none := by
    simp only [Hex.value, Char.le_def, UInt32.le_iff_toNat_le]
    have hval : c.val.toNat = c.toNat := rfl
    rw [if_neg, if_neg, if_neg]
    all_goals
      rintro ⟨-, hle'⟩
      have := hle'
      simp only [hval] at this
      revert this
      simp
      omega
  rw [hnone] at h
  cases h

theorem octets_of_isHex {x : Char} (h : IsHex x) (t : List Char) :
    octets (x :: t) = UInt8.ofNat x.toNat :: octets t := by
  rw [octets_cons, Utf8.encode_char_of_lt (toNat_lt_of_value h)]
  rfl

theorem ofNat_toNat {x : Char} (h : x.toNat < 128) :
    Char.ofNat (UInt8.ofNat x.toNat).toNat = x := by
  have hbyte : (UInt8.ofNat x.toNat).toNat = x.toNat := by
    rw [UInt8.toNat_ofNat']
    omega
  rw [hbyte, Char.ofNat_toNat]

theorem size_of_isHex {x : Char} (h : IsHex x) : x.utf8Size = 1 := by
  rw [← String.length_utf8EncodeChar, Utf8.encode_char_of_lt (toNat_lt_of_value h)]
  rfl

theorem percent_not_mem {c : Char} (h : c ≠ '%') : 37 ∉ String.utf8EncodeChar c := by
  intro hmem
  have hchar := mem_octets (s := [c]) (b := 37) (by decide) (by simpa [octets] using hmem)
  exact h (List.mem_singleton.1 hchar).symm

theorem hasValidPercentEscapes_append {p : List UInt8} (h : 37 ∉ p) (bytes : List UInt8) :
    hasValidPercentEscapes (p ++ bytes) = hasValidPercentEscapes bytes := by
  induction p with
  | nil => rfl
  | cons b p ih =>
    rw [List.mem_cons, not_or] at h
    have hb : (b != 37) = true := by
      rw [bne_iff_ne]
      exact fun hb => h.1 hb.symm
    rw [List.cons_append, hasValidPercentEscapes, hb, Bool.true_or, Bool.true_and, ih h.2]

theorem escaped_cons {c : Char} {t : List Char} : Escaped (c :: t) ↔
    (c = '%' → ∃ x y r, t = x :: y :: r ∧ IsHex x ∧ IsHex y) ∧ Escaped t := by
  constructor
  · intro h
    refine ⟨?_, fun a r hr => h (c :: a) r (by rw [hr, List.cons_append])⟩
    rintro rfl
    exact h [] t rfl
  · rintro ⟨hc, ht⟩ a r hr
    cases a with
    | nil =>
      rw [List.nil_append, List.cons.injEq] at hr
      exact hr.2 ▸ hc hr.1
    | cons d a =>
      rw [List.cons_append, List.cons.injEq] at hr
      exact ht a r hr.2

/-- Two octets of digits after a percent sign are two characters. -/
theorem exists_digits {x y : UInt8} {r : List UInt8} {t : List Char}
    (h : octets t = x :: y :: r) (hx : isAsciiHexdigit x = true) (hy : isAsciiHexdigit y = true) :
    ∃ x y r, t = x :: y :: r ∧ IsHex x ∧ IsHex y := by
  have hascii (b : UInt8) (hb : isAsciiHexdigit b = true) : b < 0x80 := by
    have hlt := toNat_lt_of_value hb
    have hb := b.toNat_lt
    rw [Utf8.toNat_ofNat_char (Or.inl (by omega))] at hlt
    exact UInt8.lt_iff_toNat_lt.2 hlt
  obtain ⟨t', rfl, ht'⟩ := eq_cons_of_octets (hascii x hx) h
  obtain ⟨t'', rfl, -⟩ := eq_cons_of_octets (hascii y hy) ht'
  exact ⟨_, _, t'', rfl, hx, hy⟩

theorem hasValidPercentEscapes_iff (s : List Char) :
    hasValidPercentEscapes (octets s) = true ↔ Escaped s := by
  induction s with
  | nil => simp [hasValidPercentEscapes, Escaped]
  | cons c t ih =>
    rw [escaped_cons]
    by_cases hc : c = '%'
    · subst hc
      have hcons : octets ('%' :: t) = 37 :: octets t := rfl
      rw [hcons, hasValidPercentEscapes, bne_self_eq_false, Bool.false_or, Bool.and_eq_true, ih]
      refine and_congr_left fun _ => ⟨fun h _ => ?_, fun h => ?_⟩
      · match hoctets : octets t with
        | x :: y :: r =>
          rw [hoctets, twoHexdigits, Bool.and_eq_true] at h
          exact exists_digits hoctets h.1 h.2
        | [] | [_] =>
          rw [hoctets] at h
          cases h
      · obtain ⟨x, y, r, rfl, hx, hy⟩ := h rfl
        rw [octets_of_isHex hx, octets_of_isHex hy]
        simp only [twoHexdigits, isAsciiHexdigit, ofNat_toNat (toNat_lt_of_value hx),
          ofNat_toNat (toNat_lt_of_value hy), Bool.and_eq_true]
        exact ⟨hx, hy⟩
    · rw [octets_cons, hasValidPercentEscapes_append (percent_not_mem hc), ih]
      simp [hc]

/-! ### The decoded path -/

theorem head_of_ne {c : Char} (h : c ≠ '%') (t : List Char) :
    ∃ b r, octets (c :: t) = b :: r ∧ b ≠ 37 := by
  obtain ⟨b, r, hc⟩ := List.exists_cons_of_ne_nil (Utf8.encodeChar_ne_nil c)
  refine ⟨b, r ++ octets t, by rw [octets_cons, hc, List.cons_append], ?_⟩
  rintro rfl
  exact percent_not_mem h (hc ▸ List.mem_cons_self)

theorem octets_getElem? (a : List Char) {t : List Char} {b : UInt8} {r : List UInt8}
    (h : octets t = b :: r) : (octets (a ++ t))[size a]? = some b := by
  rw [octets_append, ← length_octets, List.getElem?_append_right le_rfl, h]
  simp

/-- The loop goes from one character or escape to the next one. -/
theorem decodedPathLen_append {t : List Char} (ht : Escaped t) (a : List Char) (n : ℕ) {fuel : ℕ}
    (hfuel : t.length < fuel) :
    decodedPathLen (a ++ t) fuel (size a) n = .ok (n + (percentDecode t).length) := by
  induction t using percentDecode.induct generalizing a n fuel with
  | case1 =>
    obtain ⟨fuel, rfl⟩ := Nat.exists_eq_add_of_lt hfuel
    have hend : (octets (a ++ []))[size a]? = none := by simp
    simp only [decodedPathLen, hend]
    rfl
  | case2 x y t ih =>
    obtain ⟨hdigits, ht'⟩ := escaped_cons.1 ht
    obtain ⟨x', y', t', heq, hx, hy⟩ := hdigits rfl
    simp only [List.cons.injEq] at heq
    obtain ⟨rfl, rfl, rfl⟩ := heq
    obtain ⟨fuel, rfl⟩ : ∃ k, fuel = k + 1 := ⟨fuel - 1, by omega⟩
    have hrest := (escaped_cons.1 (escaped_cons.1 ht').2).2
    have hlt : t.length < fuel := by
      simp only [List.length_cons] at hfuel
      omega
    have hsize : size a + 3 = size (a ++ ['%', x, y]) := by
      simp [size_of_isHex hx, size_of_isHex hy]
      rfl
    have hsplit : a ++ '%' :: x :: y :: t = a ++ ['%', x, y] ++ t := by simp
    rw [decodedPathLen, octets_getElem? a (t := '%' :: x :: y :: t) rfl]
    show decodedPathLen _ fuel _ _ = _
    rw [hsize, hsplit, ih hrest _ _ hlt, percentDecode, List.length_cons]
    congr 1
    omega
  | case3 c t hc ih =>
    obtain ⟨hpercent, ht'⟩ := escaped_cons.1 ht
    have hne : c ≠ '%' := by
      intro hc'
      obtain ⟨x, y, r, ht, -⟩ := hpercent hc'
      exact hc x y r hc' ht
    obtain ⟨fuel, rfl⟩ : ∃ k, fuel = k + 1 := ⟨fuel - 1, by omega⟩
    obtain ⟨b, r, hb, hb37⟩ := head_of_ne hne t
    have hlt : t.length < fuel := by
      rw [List.length_cons] at hfuel
      omega
    have hsize : size a + c.utf8Size = size (a ++ [c]) := by simp
    have hsplit : a ++ c :: t = a ++ [c] ++ t := by simp
    rw [decodedPathLen, octets_getElem? a hb]
    simp only [if_neg hb37, sliceFrom_append, checked]
    show decodedPathLen _ fuel _ _ = _
    rw [hsize, hsplit, ih ht' _ _ hlt, percentDecode]
    · rw [List.length_append, String.length_utf8EncodeChar]
      congr 1
      omega
    · exact hc

/-! ### The authority -/

theorem isDigit_iff_octet (c : Char) :
    c.isDigit = true ↔ ∀ b ∈ String.utf8EncodeChar c, 48 ≤ b ∧ b ≤ 57 := by
  constructor
  · intro h b hb
    have hrange := (Decimal.isDigit_iff c).1 h
    rw [Utf8.encode_char_of_lt (by omega), List.mem_singleton] at hb
    subst hb
    have hbyte : (UInt8.ofNat c.toNat).toNat = c.toNat := by
      rw [UInt8.toNat_ofNat']
      omega
    rw [UInt8.le_iff_toNat_le, UInt8.le_iff_toNat_le, hbyte]
    exact hrange
  · intro h
    obtain ⟨b, r, hc⟩ := List.exists_cons_of_ne_nil (Utf8.encodeChar_ne_nil c)
    have hb := h b (hc ▸ List.mem_cons_self)
    have hfifty : (57 : UInt8) < 0x80 := by decide
    have hascii : b < 0x80 := UInt8.lt_of_le_of_lt hb.2 hfifty
    obtain ⟨t, ht, -⟩ := eq_cons_of_octets (s := [c]) hascii (by simpa [octets] using hc)
    rw [List.cons.injEq] at ht
    rw [UInt8.le_iff_toNat_le, UInt8.le_iff_toNat_le] at hb
    have hdigits : ∀ n ∈ List.range 58, 48 ≤ n → (Char.ofNat n).isDigit = true := by decide
    rw [ht.1]
    refine hdigits b.toNat (List.mem_range.2 ?_) hb.1
    have := hb.2
    simp at this
    omega

theorem isPort_iff (port : List Char) :
    ((octets port).all fun b => 48 ≤ b ∧ b ≤ 57) = true ↔ IsPort port := by
  simp only [IsPort, isDigit_iff_octet, octets, List.all_flatMap, List.all_eq_true,
    decide_eq_true_eq]

/-- A known host has none of the characters that end or cut an authority. -/
theorem not_mem_of_knownHost {host : List Char} (h : KnownHost host) {c : Char}
    (hc : c ∈ [':', '@', '[']) : c ∉ host := by
  have hletters : ∀ domain ∈ knownBrokerDomains, ∀ c ∈ [':', '@', '['],
      c ∉ "www.".toList ++ domain := by decide
  have hlower : ∀ c ∈ [':', '@', '['], c.toLower = c := by decide
  intro hmem
  have hmap : c ∈ host.map Char.toLower := hlower c hc ▸ List.mem_map_of_mem hmem
  rcases h with h | ⟨domain, hdomain, h⟩
  · exact hletters _ h c hc (List.mem_append_right _ hmap)
  · exact hletters domain hdomain c hc (h ▸ hmap)

theorem not_knownHost_nil : ¬ KnownHost [] := by
  rintro (h | ⟨domain, -, h⟩)
  · revert h
    decide
  · cases h

/-- The normalization of the source, with one `www.` at most. -/
theorem knownHost_iff (host : List Char) :
    (Text.stripPrefix "www.".toList (host.map Char.toLower)).getD (host.map Char.toLower) ∈
      knownBrokerDomains ↔ KnownHost host := by
  have hwww : ∀ domain ∈ knownBrokerDomains, ¬ "www.".toList <+: domain := by
    have hall : ∀ domain ∈ knownBrokerDomains, "www.".toList.isPrefixOf domain = false := by decide
    intro domain hdomain hprefix
    rw [← List.isPrefixOf_iff_prefix, hall domain hdomain] at hprefix
    cases hprefix
  rw [KnownHost, Text.stripPrefix]
  split_ifs with h
  · rw [List.isPrefixOf_iff_prefix] at h
    obtain ⟨r, hr⟩ := h
    rw [← hr, List.drop_left, Option.getD_some]
    constructor
    · exact fun hmem => Or.inr ⟨r, hmem, rfl⟩
    · rintro (hmem | ⟨domain, hdomain, heq⟩)
      · exact absurd (List.prefix_append _ r) (hwww _ hmem)
      · rwa [List.append_cancel_left heq]
  · rw [Option.getD_none]
    refine ⟨Or.inl, ?_⟩
    rintro (hmem | ⟨domain, -, heq⟩)
    · exact hmem
    · exact absurd (List.isPrefixOf_iff_prefix.2 (heq ▸ List.prefix_append _ domain)) h

theorem hostAndPort_of_not_mem {authority : List Char} (h : ':' ∉ authority) :
    hostAndPort authority = .ok (some (authority, none)) := by
  simp [hostAndPort, Text.splitOnce, h]

/-- A first colon splits in one way. -/
theorem eq_of_append_colon {host port host' port' : List Char} (h : ':' ∉ host) (h' : ':' ∉ host')
    (heq : host ++ ':' :: port = host' ++ ':' :: port') : host = host' ∧ port = port' := by
  have htake {host : List Char} (h : ':' ∉ host) (port : List Char) :
      (host ++ ':' :: port).takeWhile (· != ':') = host := by
    have hhost : ∀ c ∈ host, (c != ':') = true := fun c hc => by
      rw [bne_iff_ne]
      rintro rfl
      exact h hc
    rw [List.takeWhile_append_of_pos hhost]
    simp
  have hhost : host = host' := by rw [← htake h port, heq, htake h']
  subst hhost
  exact ⟨rfl, (List.cons.inj (List.append_cancel_left heq)).2⟩

theorem hostAndPort_append {host port : List Char} (h : ':' ∉ host) :
    hostAndPort (host ++ ':' :: port) =
      .ok (if ':' ∈ port then none else some (host, some port)) := by
  have hsplit := Text.splitOnce_append h port
  have hslice : sliceFrom (size host + 1) (host ++ ':' :: port) = some port := by
    have hsize : size host + 1 = size (host ++ [':']) := by
      simp
      rfl
    rw [hsize, List.append_cons host ':' port, sliceFrom_append]
  rw [hostAndPort, hsplit]
  simp only [hslice, checked]
  show (if ':' ∈ port then _ else _) = _
  split_ifs <;> rfl

theorem addresses_of_not_mem {isPort : List Char → Prop} {authority : List Char}
    (h : ':' ∉ authority) : Addresses isPort authority ↔ KnownHost authority := by
  constructor
  · rintro ⟨host, hhost, rfl | ⟨port, -, rfl⟩⟩
    · exact hhost
    · simp at h
  · exact fun hhost => ⟨authority, hhost, Or.inl rfl⟩

theorem addresses_append {isPort : List Char → Prop} {host port : List Char} (h : ':' ∉ host) :
    Addresses isPort (host ++ ':' :: port) ↔ KnownHost host ∧ isPort port := by
  constructor
  · rintro ⟨host', hhost, heq | ⟨port', hport, heq⟩⟩
    · exact absurd (heq ▸ List.mem_append_right host List.mem_cons_self)
        (not_mem_of_knownHost hhost (c := ':') (by simp))
    · obtain ⟨rfl, rfl⟩ := eq_of_append_colon h (not_mem_of_knownHost hhost (by simp)) heq
      exact ⟨hhost, hport⟩
  · rintro ⟨hhost, hport⟩
    exact ⟨host, hhost, Or.inr ⟨port, hport, rfl⟩⟩

/-- The last two checks: the port, and the host in the list. -/
theorem checkHost_eq (host : List Char) (port : Option (List Char)) :
    (if host = [] ∨ (port.any fun port => port ≠ [] ∧
        ¬ (octets port).all fun b => 48 ≤ b ∧ b ≤ 57) then false
      else decide ((Text.stripPrefix "www.".toList (host.map Char.toLower)).getD
        (host.map Char.toLower) ∈ knownBrokerDomains)) = true ↔
      KnownHost host ∧ ∀ p ∈ port, IsPort p := by
  have hport : (port.any fun port => decide (port ≠ [] ∧
      ¬ ((octets port).all fun b => 48 ≤ b ∧ b ≤ 57) = true)) = true ↔ ¬ ∀ p ∈ port, IsPort p := by
    cases port with
    | none => simp
    | some port =>
      simp only [Option.any_some, decide_eq_true_eq, isPort_iff, Option.mem_some_iff,
        forall_eq', and_iff_right_iff_imp]
      rintro hport rfl
      exact hport fun c hc => absurd hc List.not_mem_nil
  split_ifs with h
  · simp only [false_iff, not_and]
    intro hhost hall
    rcases h with rfl | h
    · exact not_knownHost_nil hhost
    · exact hport.1 h hall
  · rw [not_or, hport, not_not] at h
    rw [decide_eq_true_eq, knownHost_iff]
    exact ⟨fun hhost => ⟨hhost, h.2⟩, And.left⟩

/-- What the authority is checked for. -/
theorem allowedAuthority_eq (authority : List Char) : ∃ allowed,
    allowedAuthority authority = .ok allowed ∧
      (allowed = true ↔ '@' ∉ authority ∧ Addresses IsPort authority) := by
  have hhost {c : Char} (hc : c ∈ authority) (hc' : c ∈ ['[']) : ¬ Addresses IsPort authority := by
    obtain rfl := List.mem_singleton.1 hc'
    rintro ⟨host, hhost, rfl | ⟨port, hport, rfl⟩⟩
    · exact not_mem_of_knownHost hhost (by simp) hc
    · rw [List.mem_append, List.mem_cons] at hc
      rcases hc with hc | hc | hc
      · exact not_mem_of_knownHost hhost (by simp) hc
      · cases hc
      · have hdigit := hport '[' hc
        revert hdigit
        decide
  rw [allowedAuthority]
  by_cases hnil : authority = []
  · refine ⟨false, if_pos (Or.inl hnil), ?_⟩
    subst hnil
    simp only [Bool.false_eq_true, false_iff, not_and]
    exact fun _ haddresses =>
      not_knownHost_nil ((addresses_of_not_mem List.not_mem_nil).1 haddresses)
  by_cases hat : '@' ∈ authority
  · exact ⟨false, if_pos (Or.inr hat), by simp [hat]⟩
  rw [if_neg (not_or.2 ⟨hnil, hat⟩)]
  by_cases hbracket : authority.head? = some '['
  · have hmem : '[' ∈ authority := List.mem_of_mem_head? hbracket
    exact ⟨false, if_pos hbracket, by simp [hhost hmem]⟩
  rw [if_neg hbracket]
  by_cases hcolon : ':' ∈ authority
  · obtain ⟨host, port, rfl, hno⟩ := List.eq_append_cons_of_mem hcolon
    rw [hostAndPort_append hno, addresses_append hno]
    by_cases hport : ':' ∈ port
    · refine ⟨false, by simp [hport]; rfl, ?_⟩
      simp only [Bool.false_eq_true, false_iff, not_and]
      intro _ _ hall
      have hdigit := hall ':' hport
      revert hdigit
      decide
    · rw [if_neg hport]
      refine ⟨_, ?_, (checkHost_eq host (some port)).trans ?_⟩
      · show (if _ then _ else _) = _
        split_ifs <;> rfl
      · simp [hat]
  · rw [hostAndPort_of_not_mem hcolon, addresses_of_not_mem hcolon]
    refine ⟨_, ?_, (checkHost_eq authority none).trans ?_⟩
    · show (if _ then _ else _) = _
      split_ifs <;> rfl
    · simp [hat]

/-! ### A candidate as a whole -/

theorem takeWhile_delimited {a rest : List Char} (ha : ∀ c ∈ a, c ∉ ['/', '?', '#'])
    (hrest : Delimited rest) :
    (a ++ rest).takeWhile (fun c => !decide (c ∈ ['/', '?', '#'])) = a ∧
      (a ++ rest).dropWhile (fun c => !decide (c ∈ ['/', '?', '#'])) = rest :=
  takeWhile_append_of (fun c hc => decide_eq_false (ha c hc))
    fun c hc => decide_eq_true (hrest c hc)

theorem pathOf_append {a rest : List Char} (ha : ∀ c ∈ a, c ∉ ['/', '?', '#'])
    (hrest : Delimited rest) :
    pathOf (https ++ (a ++ rest)) = rest.takeWhile fun c => !decide (c ∈ ['?', '#']) := by
  simp only [pathOf, List.drop_left, decide_not, (takeWhile_delimited ha hrest).2]

theorem escaped_of_append {a s t : List Char} (h : Escaped (a ++ (s ++ t)))
    (ht : ∀ c ∈ t.head?, ¬ IsHex c) : Escaped s := by
  rintro b r rfl
  obtain ⟨x, y, r', hr, hx, hy⟩ := h (a ++ b) (r ++ t) (by simp)
  match r with
  | x' :: y' :: r =>
    simp only [List.cons_append, List.cons.injEq] at hr
    exact ⟨x', y', r, rfl, hr.1 ▸ hx, hr.2.1 ▸ hy⟩
  | [x'] =>
    rw [List.singleton_append, List.cons.injEq] at hr
    exact absurd hy (ht y (by rw [hr.2]; rfl))
  | [] =>
    rw [List.nil_append] at hr
    exact absurd hx (ht x (by rw [hr]; rfl))

/-- What is parsed of a candidate that passes the first checks, whatever its authority. -/
theorem parseAllowedUrl_append {a rest : List Char} {allowed : Bool}
    (hvalid : Escaped (https ++ (a ++ rest)))
    (hcontrol : ∀ c ∈ https ++ (a ++ rest), Text.isControl c = false)
    (hbackslash : '\\' ∉ https ++ (a ++ rest)) (ha : ∀ c ∈ a, c ∉ ['/', '?', '#'])
    (hrest : Delimited rest) (hallowed : allowedAuthority a = .ok allowed) :
    parseAllowedUrl (https ++ (a ++ rest)) =
      .ok (if allowed then some (rank (https ++ (a ++ rest))).1 else none) := by
  have hguard : ¬ (¬ https.isPrefixOf (https ++ (a ++ rest)) = true ∨
      ¬ hasValidPercentEscapes (octets (https ++ (a ++ rest))) = true ∨
      (https ++ (a ++ rest)).any Text.isControl = true ∨ '\\' ∈ https ++ (a ++ rest)) := by
    rw [not_or, not_or, not_or, not_not, not_not, List.any_eq_true]
    refine ⟨List.isPrefixOf_iff_prefix.2 (List.prefix_append _ _),
      (hasValidPercentEscapes_iff _).2 hvalid, ?_, hbackslash⟩
    rintro ⟨c, hc, hc'⟩
    rw [hcontrol c hc] at hc'
    cases hc'
  have hauthority : (offset (fun c => c ∈ ['/', '?', '#']) (a ++ rest)).getD (size (a ++ rest)) =
      size a := by rw [offset_getD, (takeWhile_delimited ha hrest).1]
  obtain ⟨path, query, hpath, hsplit, -, hquery⟩ := exists_offset (fun c => c ∈ ['?', '#']) rest
  have hend := end_eq (fun c => decide (c ∈ ['?', '#'])) (https ++ a) rest
  rw [hpath, List.append_assoc, size_append https a] at hend
  have hescaped : Escaped path := by
    refine escaped_of_append (a := https ++ a) (t := query) ?_ fun c hc hhex => ?_
    · rw [List.append_assoc, ← hsplit]
      exact hvalid
    · have hnone : ∀ c ∈ ['?', '#'], ¬ (Hex.value c).isSome = true := by decide
      exact hnone c (of_decide_eq_true (hquery c hc)) hhex
  have hdecoded := decodedPathLen_append hescaped [] 0
    (Nat.lt_succ_of_le (length_le_size path))
  rw [List.nil_append, Nat.zero_add] at hdecoded
  have hrest' : sliceFrom (size https + size a) (https ++ (a ++ rest)) = some rest := by
    rw [← size_append, ← List.append_assoc, sliceFrom_append]
  have hpath' : slice (size https + size a) (size https + size a + size path)
      (https ++ (a ++ rest)) = some path := by
    rw [← size_append, ← List.append_assoc, hsplit, slice_append]
  rw [parseAllowedUrl, if_neg hguard]
  simp only [sliceFrom_append, checked_some, ok_bind, hauthority, slice_append, hallowed, hrest',
    hend, hpath']
  cases allowed with
  | false => rfl
  | true =>
    have hlength : decodedPathLen path (size path + 1) 0 0 =
        .ok (rank (https ++ (a ++ rest))).1 := by
      rw [rank, pathOf_append ha hrest, hpath]
      exact hdecoded
    rw [hlength]
    rfl

/-- A candidate is parsed to its rank, or not. -/
theorem parseAllowedUrl_of_allowed {link : List Char} (h : Allowed IsPort link) :
    parseAllowedUrl link = .ok (some (rank link).1) := by
  obtain ⟨a, rest, rfl, ha, hrest, hat, haddresses⟩ := h.addresses
  obtain ⟨allowed, hallowed, hiff⟩ := allowedAuthority_eq a
  rw [hiff.2 ⟨hat, haddresses⟩] at hallowed
  exact parseAllowedUrl_append h.escaped h.control h.backslash ha hrest hallowed

theorem parseAllowedUrl_of_not {link : List Char} (h : ¬ Allowed IsPort link) :
    parseAllowedUrl link = .ok none := by
  by_cases hguard : ¬ https.isPrefixOf link = true ∨
      ¬ hasValidPercentEscapes (octets link) = true ∨ link.any Text.isControl = true ∨
        '\\' ∈ link
  · rw [parseAllowedUrl, if_pos hguard]
  · rw [not_or, not_or, not_or, not_not, not_not, hasValidPercentEscapes_iff,
      List.isPrefixOf_iff_prefix] at hguard
    obtain ⟨⟨s, rfl⟩, hescaped, hcontrol, hbackslash⟩ := hguard
    have hcontrol' : ∀ c ∈ https ++ s, Text.isControl c = false := by
      simpa only [List.any_eq_true, not_exists, not_and, Bool.not_eq_true] using hcontrol
    obtain ⟨a, rest, -, rfl, ha, hrest⟩ := exists_offset (fun c => c ∈ ['/', '?', '#']) s
    have ha' : ∀ c ∈ a, c ∉ ['/', '?', '#'] := fun c hc => of_decide_eq_false (ha c hc)
    have hrest' : Delimited rest := fun c hc => of_decide_eq_true (hrest c hc)
    obtain ⟨allowed, hallowed, hiff⟩ := allowedAuthority_eq a
    rw [parseAllowedUrl_append hescaped hcontrol' hbackslash ha' hrest' hallowed]
    cases allowed with
    | false => rfl
    | true =>
      obtain ⟨hat, haddresses⟩ := hiff.1 rfl
      exact absurd ⟨hcontrol', hbackslash, hescaped, a, rest, rfl, ha', hrest', hat, haddresses⟩ h

/-! ### The walk -/

theorem mem_kept {isPort : List Char → Prop} {ms : List (List Char)} {link : List Char} :
    link ∈ kept isPort ms ↔ Allowed isPort link ∧ ∃ m ∈ ms, trimCandidate m = link := by
  simp only [kept, List.mem_eraseDups, List.mem_filter, List.mem_map, decide_eq_true_eq]
  exact And.comm

theorem eraseDups_concat (l : List (List Char)) (link : List Char) :
    (l ++ [link]).eraseDups = if link ∈ l then l.eraseDups else l.eraseDups ++ [link] := by
  rw [List.eraseDups_append, List.removeAll, List.filter_singleton]
  split_ifs with h
  · simp [h]
  · simp [h, List.eraseDups_cons]

theorem kept_concat_of_not {ms : List (List Char)} {m : List Char}
    (h : trimCandidate m ∈ kept IsPort ms ∨ ¬ Allowed IsPort (trimCandidate m)) :
    kept IsPort (ms ++ [m]) = kept IsPort ms := by
  classical
  rw [kept, List.map_append, List.filter_append, List.map_singleton, List.filter_singleton]
  by_cases hallowed : Allowed IsPort (trimCandidate m)
  · have hmem := h.resolve_right (not_not_intro hallowed)
    rw [kept, List.mem_eraseDups] at hmem
    rw [decide_eq_true hallowed, cond_true, eraseDups_concat, if_pos hmem]
    rfl
  · rw [decide_eq_false hallowed, cond_false, List.append_nil]
    rfl

theorem kept_concat {ms : List (List Char)} {m : List Char}
    (hnew : trimCandidate m ∉ kept IsPort ms) (hallowed : Allowed IsPort (trimCandidate m)) :
    kept IsPort (ms ++ [m]) = kept IsPort ms ++ [trimCandidate m] := by
  classical
  rw [kept, List.mem_eraseDups] at hnew
  rw [kept, List.map_append, List.filter_append, List.map_singleton, List.filter_singleton,
    decide_eq_true hallowed, cond_true, eraseDups_concat, if_neg hnew]
  rfl

theorem push_kept (ms : List (List Char)) (m : List Char) :
    Found.push ⟨kept IsPort ms, kept IsPort ms⟩ (trimCandidate m) =
      .ok ⟨kept IsPort (ms ++ [m]), kept IsPort (ms ++ [m])⟩ := by
  rw [Found.push]
  by_cases hseen : trimCandidate m ∈ kept IsPort ms
  · rw [if_pos hseen, kept_concat_of_not (Or.inl hseen)]
  rw [if_neg hseen]
  by_cases hallowed : Allowed IsPort (trimCandidate m)
  · rw [parseAllowedUrl_of_allowed hallowed, ok_bind, kept_concat hseen hallowed]
    rfl
  · rw [parseAllowedUrl_of_not hallowed, ok_bind, kept_concat_of_not (Or.inr hallowed)]
    rfl

section Walk

variable {scheme a b body r m : List Char}

theorem prefix_of_isLink (h : IsLink m) : "http".toList <+: m := by
  obtain ⟨body, -, -, rfl | rfl⟩ := h
  · exact ⟨"s://".toList ++ body, rfl⟩
  · exact ⟨"://".toList ++ body, rfl⟩

/-- Within a scheme, only its start can be one. -/
theorem apart_scheme (hscheme : scheme ∈ [https, http]) (s : List Char) :
    ∃ tail, scheme = 'h' :: tail ∧ Text.Apart "http".toList tail s := by
  have hall : ∀ scheme ∈ [https, http], scheme = 'h' :: scheme.tail ∧ 'h' ∉ scheme.tail := by
    decide
  exact ⟨scheme.tail, (hall scheme hscheme).1, Text.apart_of_head (hall scheme hscheme).2⟩

/-- Two schemes at one place are the same. -/
theorem eq_of_scheme {scheme' : List Char} (h : scheme ∈ [https, http])
    (h' : scheme' ∈ [https, http]) {u v : List Char} (heq : scheme ++ u = scheme' ++ v) :
    scheme = scheme' := by
  have hall : ∀ scheme ∈ [https, http], ∀ scheme' ∈ [https, http],
      scheme.isPrefixOf scheme' = true ∨ scheme'.isPrefixOf scheme = true → scheme = scheme' := by
    decide
  refine hall scheme h scheme' h' ?_
  rw [List.isPrefixOf_iff_prefix, List.isPrefixOf_iff_prefix]
  exact List.prefix_or_prefix_of_prefix (List.prefix_append scheme u) (heq ▸ List.prefix_append _ v)

theorem isLink_iff : IsLink m ↔ ∃ scheme ∈ [https, http], ∃ body, body ≠ [] ∧
    (∀ c ∈ body, endsCandidate c = false) ∧ m = scheme ++ body := by
  constructor
  · rintro ⟨body, hne, hbody, rfl | rfl⟩
    · exact ⟨https, by simp, body, hne, hbody, rfl⟩
    · exact ⟨http, by simp, body, hne, hbody, rfl⟩
  · rintro ⟨scheme, hscheme, body, hne, hbody, rfl⟩
    rw [List.mem_cons, List.mem_singleton] at hscheme
    obtain rfl | rfl := hscheme
    · exact ⟨body, hne, hbody, Or.inl rfl⟩
    · exact ⟨body, hne, hbody, Or.inr rfl⟩

/-- A link that starts where a scheme does has a body within the run of characters. -/
theorem length_le_of_isLink (hscheme : scheme ∈ [https, http])
    (hend : ∀ c ∈ r.head?, endsCandidate c = true) (hm : m <+: scheme ++ (body ++ r))
    (h : IsLink m) : scheme.length < m.length ∧ m.length ≤ scheme.length + body.length := by
  obtain ⟨scheme', hscheme', body', hne, hbody', rfl⟩ := isLink_iff.1 h
  obtain ⟨t, ht⟩ := hm
  rw [List.append_assoc] at ht
  obtain rfl := eq_of_scheme hscheme' hscheme ht
  have hpos := List.length_pos_iff.2 hne
  rw [List.append_cancel_left_eq] at ht
  rw [List.length_append]
  refine ⟨by omega, Nat.add_le_add_left ?_ _⟩
  by_contra hlt
  obtain ⟨v, rfl⟩ : body <+: body' :=
    List.prefix_of_prefix_length_le ⟨r, rfl⟩ ⟨t, ht⟩ (by omega)
  rw [List.append_assoc, List.append_cancel_left_eq] at ht
  cases v with
  | nil => simp at hlt
  | cons c v =>
    have hc := hend c (by rw [← ht]; rfl)
    rw [hbody' c (by simp)] at hc
    cases hc

/-- No link starts in a scheme that is there without a body. -/
theorem noneStart_scheme (hscheme : scheme ∈ [https, http])
    (hend : ∀ c ∈ r.head?, endsCandidate c = true) : Text.NoneStart IsLink scheme r := by
  obtain ⟨tail, htail, hapart⟩ := apart_scheme hscheme r
  intro v hv hne m hm hlink
  rw [htail] at hv
  rcases List.suffix_cons_iff.1 hv with rfl | hv
  · have hm' : m <+: scheme ++ ([] ++ r) := by rwa [htail]
    have hle := length_le_of_isLink hscheme hend hm' hlink
    simp at hle
    omega
  · exact hapart v hv hne ((prefix_of_isLink hlink).trans hm)

/-- No link starts in a `http` that no scheme starts with. -/
theorem noneStart_http (h : ∀ scheme ∈ [https, http], ¬ scheme <+: "http".toList ++ r) :
    Text.NoneStart IsLink "http".toList r := by
  have htail : Text.Apart "http".toList "ttp".toList r := Text.apart_of_head (by decide)
  intro v hv hne m hm hlink
  rcases List.suffix_cons_iff.1 hv with rfl | hv
  · obtain ⟨scheme, hscheme, body, -, -, rfl⟩ := isLink_iff.1 hlink
    exact h scheme hscheme ((List.prefix_append scheme body).trans hm)
  · exact htail v hv hne ((prefix_of_isLink hlink).trans hm)

/-- A link with as long a body as can be. -/
theorem matches_link {ms : List (List Char)} (hscheme : scheme ∈ [https, http]) (hne : body ≠ [])
    (hbody : ∀ c ∈ body, endsCandidate c = false) (hend : ∀ c ∈ r.head?, endsCandidate c = true)
    (hapart : Text.Apart "http".toList b (scheme ++ body ++ r)) (h : Text.Matches IsLink r ms) :
    Text.Matches IsLink (b ++ (scheme ++ body ++ r)) ((scheme ++ body) :: ms) := by
  refine .cons (Text.noneStart_of_apart (fun _ => prefix_of_isLink) hapart)
    (isLink_iff.2 ⟨scheme, hscheme, body, hne, hbody, rfl⟩) (fun m hm hlink => ?_) h
  rw [List.append_assoc] at hm
  rw [List.length_append]
  exact (length_le_of_isLink hscheme hend hm hlink).2

theorem not_allowed_scheme (hscheme : scheme ∈ [https, http]) :
    ¬ Allowed IsPort (trimCandidate scheme) := by
  have htrim : ∀ scheme ∈ [https, http], trimCandidate scheme = scheme := by decide
  rw [htrim scheme hscheme]
  intro h
  obtain ⟨a, rest, heq, -, -, -, haddresses⟩ := h.addresses
  rw [← List.append_nil scheme] at heq
  obtain rfl := eq_of_scheme hscheme (by simp) heq
  obtain ⟨rfl, -⟩ := List.append_eq_nil_iff.1 (List.append_cancel_left heq).symm
  exact not_knownHost_nil ((addresses_of_not_mem List.not_mem_nil).1 haddresses)

/-! ### One round -/

variable {fuel : ℕ} {found : Found}

theorem schemeLen_eq (hscheme : scheme ∈ [https, http]) (s : List Char) :
    (if https.isPrefixOf (scheme ++ s) then some (size https)
      else if http.isPrefixOf (scheme ++ s) then some (size http) else none) =
      some (size scheme) := by
  rw [List.mem_cons, List.mem_singleton] at hscheme
  obtain rfl | rfl := hscheme
  · rw [if_pos (List.isPrefixOf_iff_prefix.2 (List.prefix_append _ _))]
  · rw [if_neg, if_pos (List.isPrefixOf_iff_prefix.2 (List.prefix_append _ _))]
    rintro h
    obtain ⟨t, ht⟩ := List.isPrefixOf_iff_prefix.1 h
    have heq : https = http := eq_of_scheme (by simp) (by simp) ht
    revert heq
    decide

theorem collect_scheme (hscheme : scheme ∈ [https, http])
    (hbody : ∀ c ∈ body, endsCandidate c = false) (hend : ∀ c ∈ r.head?, endsCandidate c = true)
    (hapart : Text.Apart "http".toList b (scheme ++ body ++ r)) :
    collect (a ++ (b ++ (scheme ++ body ++ r))) (fuel + 1) (size a) found = (do
      let found ← found.push (trimCandidate (scheme ++ body))
      collect (a ++ (b ++ (scheme ++ body ++ r))) fuel (size (a ++ b ++ (scheme ++ body))) found) := by
  have hhttp : ∃ t, scheme = "http".toList ++ t := by
    have hall : ∀ scheme ∈ [https, http], scheme = "http".toList ++ scheme.drop 4 := by decide
    exact ⟨_, hall scheme hscheme⟩
  have hfind : find "http".toList (b ++ (scheme ++ body ++ r)) = some (size b) := by
    obtain ⟨t, rfl⟩ := hhttp
    simp only [List.append_assoc] at hapart ⊢
    exact find_append hapart
  have hstart : sliceFrom (size a + size b) (a ++ (b ++ (scheme ++ body ++ r))) =
      some (scheme ++ (body ++ r)) := by
    rw [← size_append, ← List.append_assoc, sliceFrom_append, List.append_assoc]
  have hbody' : sliceFrom (size a + size b + size scheme) (a ++ (b ++ (scheme ++ body ++ r))) =
      some (body ++ r) := by
    have hsplit : a ++ (b ++ (scheme ++ body ++ r)) = a ++ b ++ scheme ++ (body ++ r) := by simp
    rw [← size_append, ← size_append, hsplit, sliceFrom_append]
  have hcandidate : slice (size a + size b) (size a + size b + size (scheme ++ body))
      (a ++ (b ++ (scheme ++ body ++ r))) = some (scheme ++ body) := by
    rw [← size_append a b, ← List.append_assoc a b, slice_append]
  have hcut := end_eq endsCandidate (a ++ b ++ scheme) (body ++ r)
  rw [(takeWhile_append_of hbody hend).1] at hcut
  have htext : a ++ b ++ scheme ++ (body ++ r) = a ++ (b ++ (scheme ++ body ++ r)) := by simp
  rw [htext, size_append (a ++ b), size_append a, Nat.add_assoc _ (size scheme),
    ← size_append scheme] at hcut
  have hcursor : max (size a + size b + size (scheme ++ body)) (size a + size b + size scheme) =
      size (a ++ b ++ (scheme ++ body)) := by
    simp only [size_append]
    omega
  rw [collect, sliceFrom_append, checked_some, ok_bind, hfind]
  simp only [hstart, checked_some, ok_bind, schemeLen_eq hscheme, hbody']
  rw [hcut, hcandidate, checked_some, ok_bind, hcursor]

theorem collect_http (h : ∀ scheme ∈ [https, http], ¬ scheme <+: "http".toList ++ r)
    (hapart : Text.Apart "http".toList b ("http".toList ++ r)) :
    collect (a ++ (b ++ ("http".toList ++ r))) (fuel + 1) (size a) found =
      collect (a ++ (b ++ ("http".toList ++ r))) fuel (size (a ++ b ++ "http".toList)) found := by
  have hstart : sliceFrom (size a + size b) (a ++ (b ++ ("http".toList ++ r))) =
      some ("http".toList ++ r) := by
    rw [← size_append, ← List.append_assoc, sliceFrom_append]
  have hnone (scheme : List Char) (hscheme : scheme ∈ [https, http]) :
      ¬ scheme.isPrefixOf ("http".toList ++ r) = true := by
    rw [List.isPrefixOf_iff_prefix]
    exact h scheme hscheme
  rw [collect, sliceFrom_append, checked_some, ok_bind, find_append hapart]
  simp only [hstart, checked_some, ok_bind, if_neg (hnone https (by simp)),
    if_neg (hnone http (by simp)), size_append]

/-- The walk from any place on takes the matches of what follows. -/
theorem collect_append (s : List Char) (hfuel : s.length < fuel) (before : List (List Char)) :
    ∃ ms, Text.Matches IsLink s ms ∧
      collect (a ++ s) fuel (size a) ⟨kept IsPort before, kept IsPort before⟩ =
        .ok (kept IsPort (before ++ ms)) := by
  induction fuel generalizing a s before with
  | zero => omega
  | succ fuel ih =>
    cases hafter : Text.after "http".toList s with
    | none =>
      have hno := Text.after_eq_none.1 hafter
      refine ⟨[], .nil fun m hm hlink => hno ((prefix_of_isLink hlink).isInfix.trans hm), ?_⟩
      rw [collect, sliceFrom_append, checked_some, ok_bind, find_eq_none.2 hno, List.append_nil]
      rfl
    | some t =>
      obtain ⟨b, rfl, hapart⟩ := Text.after_eq_some hafter
      by_cases hscheme : ∃ scheme ∈ [https, http], scheme <+: "http".toList ++ t
      · obtain ⟨scheme, hscheme, u, hu⟩ := hscheme
        obtain ⟨body, r, -, rfl, hbody, hend⟩ := exists_offset endsCandidate u
        have hs : "http".toList ++ t = scheme ++ body ++ r := by rw [← hu, List.append_assoc]
        rw [hs] at hapart hfuel ⊢
        have hlength : r.length < fuel := by
          obtain ⟨tail, htail, -⟩ := apart_scheme hscheme []
          rw [htail] at hfuel
          simp only [List.length_append, List.length_cons] at hfuel
          omega
        have htext : a ++ b ++ (scheme ++ body) ++ r = a ++ (b ++ (scheme ++ body ++ r)) := by
          simp
        rw [collect_scheme hscheme hbody hend hapart, push_kept, ok_bind]
        by_cases hne : body = []
        · subst hne
          obtain ⟨ms, hms, hrun⟩ := ih (a := a ++ b ++ (scheme ++ [])) r hlength before
          rw [htext] at hrun
          rw [List.append_nil] at hapart hrun ⊢
          rw [kept_concat_of_not (Or.inr (not_allowed_scheme hscheme)), hrun]
          exact ⟨ms, (hms.skip (noneStart_scheme hscheme hend)).skip
            (Text.noneStart_of_apart (fun _ => prefix_of_isLink) hapart), rfl⟩
        · obtain ⟨ms, hms, hrun⟩ := ih (a := a ++ b ++ (scheme ++ body)) r hlength
            (before ++ [scheme ++ body])
          rw [htext] at hrun
          refine ⟨_, matches_link hscheme hne hbody hend hapart hms, ?_⟩
          rw [hrun, List.append_assoc before, List.singleton_append]
      · have hscheme' : ∀ scheme ∈ [https, http], ¬ scheme <+: "http".toList ++ t :=
          fun scheme hmem hprefix => hscheme ⟨scheme, hmem, hprefix⟩
        have hlength : t.length < fuel := by
          rw [List.length_append, List.length_append] at hfuel
          have hfour : "http".toList.length = 4 := rfl
          omega
        obtain ⟨ms, hms, hrun⟩ := ih (a := a ++ b ++ "http".toList) t hlength before
        have htext : a ++ b ++ "http".toList ++ t = a ++ (b ++ ("http".toList ++ t)) := by simp
        rw [htext] at hrun
        rw [collect_http hscheme' hapart, hrun]
        exact ⟨ms, (hms.skip (noneStart_http hscheme')).skip
          (Text.noneStart_of_apart (fun _ => prefix_of_isLink) hapart), rfl⟩

end Walk

/-! ### The links of a text -/

theorem score_eq {link : List Char} (h : Allowed IsPort link) : score link = .ok (rank link) := by
  rw [score, parseAllowedUrl_of_allowed h, ok_bind]
  rfl

theorem mapM_score {links : List (List Char)} (h : ∀ link ∈ links, Allowed IsPort link) :
    (links.mapM fun link => do return (← score link, link)) =
      Except.ok (links.map fun link => (rank link, link)) := by
  induction links with
  | nil => rfl
  | cons link links ih =>
    rw [List.forall_mem_cons] at h
    rw [List.mapM_cons, ih h.2, score_eq h.1]
    rfl

/-- Scores that were read beforehand sort the links by their ranks. -/
theorem sort_scored (links : List (List Char)) :
    (((links.map fun link => (rank link, link)).mergeSort fun a b => scoreLe a.1 b.1).map
      Prod.snd) = links.mergeSort fun a b => scoreLe (rank a) (rank b) := by
  have hscored : ∀ a ∈ links.map fun link => (rank link, link), a.1 = rank a.2 := by
    intro a ha
    obtain ⟨link, -, rfl⟩ := List.mem_map.1 ha
    rfl
  rw [List.map_mergeSort (s := fun a b => scoreLe (rank a) (rank b)), List.map_map]
  · congr 1
    exact List.map_id links
  · intro a ha b hb
    rw [hscored a ha, hscored b hb]

theorem extract_kept (text : List Char) :
    ∃ ms, Text.Matches IsLink text ms ∧ extractConfirmationLinks text = .ok (ranked IsPort ms) := by
  obtain ⟨ms, hms, hrun⟩ := collect_append (a := []) text (Nat.lt_succ_self _) []
  have hempty : kept IsPort [] = [] := rfl
  rw [List.nil_append, List.nil_append, hempty] at hrun
  refine ⟨ms, hms, ?_⟩
  rw [extractConfirmationLinks]
  show (do
    let links ← collect text (text.length + 1) (size []) ⟨[], []⟩
    let scored ← links.mapM fun link => do return (← score link, link)
    return (scored.mergeSort fun a b => scoreLe a.1 b.1).map Prod.snd) = _
  rw [hrun, ok_bind, mapM_score fun link hlink => (mem_kept.1 hlink).1, ok_bind, sort_scored]
  rfl

/-- The links are those of the pattern and the condition, and no slice stops the walk. -/
theorem extractConfirmationLinks_eq (text : List Char) :
    ∃ ms, Text.Matches IsLink text ms ∧ (∀ ms', Text.Matches IsLink text ms' → ms' = ms) ∧
      ∃ links, extractConfirmationLinks text = .ok links ∧ links = ranked IsPort ms ∧
        ∀ link, link ∈ links ↔ Allowed IsPort link ∧ ∃ m ∈ ms, trimCandidate m = link := by
  obtain ⟨ms, hms, hrun⟩ := extract_kept text
  refine ⟨ms, hms, fun ms' hms' => hms'.unique hms, _, hrun, rfl, fun link => ?_⟩
  rw [ranked, List.mem_mergeSort, mem_kept]

/-- A port without digits is allowed as well. -/
theorem empty_port_kept : ¬ ∀ text, ∃ ms, Text.Matches IsLink text ms ∧
    extractConfirmationLinks text =
      .ok (ranked (fun port => port ≠ [] ∧ IsPort port) ms) := by
  intro h
  obtain ⟨ms, hms, hrun⟩ := h "https://acxiom.com:/x".toList
  have hlinks : extractConfirmationLinks "https://acxiom.com:/x".toList =
      .ok ["https://acxiom.com:/x".toList] := by
    have hcollect : collect "https://acxiom.com:/x".toList 22 0 {} =
        .ok ["https://acxiom.com:/x".toList] := by rfl
    have hscore : score "https://acxiom.com:/x".toList = .ok (2, 21) := by rfl
    rw [extractConfirmationLinks]
    show (do
      let links ← collect "https://acxiom.com:/x".toList 22 0 {}
      let scored ← links.mapM fun link => do return (← score link, link)
      return (scored.mergeSort fun a b => scoreLe a.1 b.1).map Prod.snd) = _
    rw [hcollect, ok_bind, List.mapM_cons, hscore]
    simp
  have hmem : "https://acxiom.com:/x".toList ∈
      ranked (fun port => port ≠ [] ∧ IsPort port) ms := by
    rw [hlinks, Except.ok.injEq] at hrun
    rw [← hrun]
    exact List.mem_cons_self
  rw [ranked, List.mem_mergeSort, mem_kept] at hmem
  obtain ⟨authority, rest, htext, hauthority, hrest, -, haddresses⟩ := hmem.1.addresses
  have hrest' : "acxiom.com:/x".toList = authority ++ rest :=
    @List.append_cancel_left _ https _ _ htext
  obtain rfl : "acxiom.com:".toList = authority := by
    rw [← (takeWhile_delimited hauthority hrest).1, ← hrest']
    rfl
  have hhost : ':' ∉ "acxiom.com".toList := by decide
  exact ((addresses_append hhost).1 haddresses).2.1 rfl

end EraseMe.Confirmation
