import EraseMe.Email.ImapSession
import EraseMe.Library.Occurrence

/-!
# Sets of UIDs as texts

`collapseUids` writes numbers as a sequence set: its parts are numbers and ranges `low:high`.  Read
again it is the set of the numbers (`denotes_collapseUids`).  The loop adds one to the end of a
range, and where `2^32 - 1` occurs twice this leaves the type: a build that checks its additions
stops there (`collapses_iff`), and one that wraps finds no other number either.
-/

namespace EraseMe.Email.Imap

/-! ### The loop over 32-bit numbers -/

/-- The highest UID. -/
def maxUid : UInt32 := 4294967295

/-- `n + 1` in a build that checks its additions. -/
def checkedNext (n : UInt32) : Option UInt32 := if n = maxUid then none else some (n + 1)

/-- `n + 1` in a build that wraps. -/
def wrappingNext (n : UInt32) : Option UInt32 := some (n + 1)

/-- `ranges`, with the addition of the build. -/
def rangesBy (next : UInt32 → Option UInt32) (first last : UInt32) :
    List UInt32 → Option (List String)
  | [] => some [rangeText first.toNat last.toNat]
  | uid :: uids => do
      let following ← next last
      if uid = following then rangesBy next first uid uids
      else (rangesBy next uid uid uids).map (rangeText first.toNat last.toNat :: ·)

/-- `collapseUids` over any step. -/
def collapseUidsBy (next : UInt32 → Option UInt32) (uids : List UInt32) : Option String :=
  match uids.insertionSort (· ≤ ·) with
  | [] => some ""
  | uid :: uids => (rangesBy next uid uid uids).map (String.intercalate ",")

/-! ### Reading a sequence set -/

/-- A number, or two with a colon between them. -/
def readRange (part : List Char) : Option (ℕ × ℕ) :=
  match Text.splitOnce ':' part with
  | none => (Text.parseUnsigned u32Max part).map fun n => (n, n)
  | some (low, high) => do
      let low ← Text.parseUnsigned u32Max low
      let high ← Text.parseUnsigned u32Max high
      some (low, high)

/-- Read a set as ranges. -/
def readSet (text : String) : Option (List (ℕ × ℕ)) :=
  (Text.splitOn ',' text.toList).mapM readRange

/-- The text is a sequence set of these numbers. -/
def Denotes (text : String) (p : ℕ → Prop) : Prop :=
  ∃ ranges, readSet text = some ranges ∧ ∀ n, (∃ r ∈ ranges, r.1 ≤ n ∧ n ≤ r.2) ↔ p n

/-- A build that checks its additions writes the numbers of the list. -/
def Collapses (uids : List UInt32) : Prop :=
  ∃ text, collapseUidsBy checkedNext uids = some text ∧
    Denotes text fun n => ∃ uid ∈ uids, uid.toNat = n

/-! ### The parts of the text -/

theorem toList_toString (n : ℕ) : (toString n).toList = Nat.toDigits 10 n :=
  Nat.toList_repr

theorem toList_rangeText_of_ne {first last : ℕ} (h : first ≠ last) :
    (rangeText first last).toList = Nat.toDigits 10 first ++ ':' :: Nat.toDigits 10 last := by
  rw [rangeText, if_neg h]
  simp

theorem comma_not_mem_rangeText (first last : ℕ) : ',' ∉ (rangeText first last).toList := by
  by_cases h : first = last
  · rw [rangeText, if_pos h, toList_toString]
    exact Text.not_mem_toDigits rfl
  · rw [toList_rangeText_of_ne h]
    simp [Text.not_mem_toDigits (show ','.isDigit = false from rfl)]

/-- A part is read as the range it is written for. -/
theorem readRange_rangeText {first last : ℕ} (hfirst : first ≤ u32Max) (hlast : last ≤ u32Max) :
    readRange (rangeText first last).toList = some (first, last) := by
  by_cases h : first = last
  · subst h
    rw [rangeText, if_pos rfl, toList_toString, readRange, Text.splitOnce,
      if_neg (Text.not_mem_toDigits rfl)]
    simp [Text.parseUnsigned_toDigits hfirst]
  · rw [toList_rangeText_of_ne h, readRange, Text.splitOnce,
      if_pos (by simp)]
    have hdigits : ∀ c ∈ Nat.toDigits 10 first, (c != ':') = true := fun c hc => by
      rw [bne_iff_ne]
      rintro rfl
      exact Text.not_mem_toDigits rfl hc
    rw [List.takeWhile_append_of_pos hdigits, List.dropWhile_append_of_pos hdigits]
    simp [Text.parseUnsigned_toDigits hfirst, Text.parseUnsigned_toDigits hlast]

theorem splitOn_intercalate {parts : List String} (hne : parts ≠ [])
    (h : ∀ part ∈ parts, ',' ∉ part.toList) :
    Text.splitOn ',' (String.intercalate "," parts).toList = parts.map String.toList := by
  induction parts with
  | nil => exact absurd rfl hne
  | cons part parts ih =>
    have hpart := h part List.mem_cons_self
    cases parts with
    | nil =>
      rw [String.intercalate_singleton, Paths.splitOn_of_not_mem hpart]
      rfl
    | cons next parts =>
      have hrest := ih (List.cons_ne_nil _ _) fun p hp => h p (List.mem_cons_of_mem _ hp)
      have htext : (String.intercalate "," (part :: next :: parts)).toList =
          part.toList ++ ',' :: (String.intercalate "," (next :: parts)).toList := by
        simp [String.intercalate_cons_cons]
      rw [htext, Paths.splitOn_append_sep, Paths.splitOn_of_not_mem hpart, hrest]
      rfl

/-! ### The ranges -/

/-- The ranges whose texts `ranges` writes. -/
def runs (first last : ℕ) : List ℕ → List (ℕ × ℕ)
  | [] => [(first, last)]
  | uid :: uids => if uid = last + 1 then runs first uid uids else (first, last) :: runs uid uid uids

theorem ranges_eq_map_runs (first last : ℕ) (uids : List ℕ) :
    ranges first last uids = (runs first last uids).map fun r => rangeText r.1 r.2 := by
  induction uids generalizing first last with
  | nil => rfl
  | cons uid uids ih =>
    rw [ranges, runs]
    split_ifs with hnext
    · exact ih first uid
    · rw [ih uid uid, List.map_cons]

theorem runs_ne_nil (first last : ℕ) (uids : List ℕ) : runs first last uids ≠ [] := by
  induction uids generalizing first last with
  | nil => exact List.cons_ne_nil _ _
  | cons uid uids ih =>
    rw [runs]
    split_ifs with hnext
    · exact ih first uid
    · exact List.cons_ne_nil _ _

/-- The ranges of sorted numbers hold the first range and the numbers. -/
theorem mem_runs {first last n : ℕ} {uids : List ℕ} (hle : first ≤ last)
    (hsorted : (last :: uids).Pairwise (· ≤ ·)) :
    (∃ r ∈ runs first last uids, r.1 ≤ n ∧ n ≤ r.2) ↔ first ≤ n ∧ n ≤ last ∨ n ∈ uids := by
  induction uids generalizing first last with
  | nil => simp [runs]
  | cons uid uids ih =>
    obtain ⟨hlast, hrest⟩ := List.pairwise_cons.1 hsorted
    have hnext := hlast uid List.mem_cons_self
    rw [runs, List.mem_cons]
    split_ifs with hsucc
    · rw [ih (hle.trans hnext) hrest]
      constructor
      · rintro (⟨hfirst, hn⟩ | hn)
        · omega
        · exact Or.inr (Or.inr hn)
      · rintro (⟨hfirst, hn⟩ | rfl | hn)
        · exact Or.inl ⟨hfirst, hn.trans hnext⟩
        · exact Or.inl ⟨hle.trans hnext, le_rfl⟩
        · exact Or.inr hn
    · have hhead : (∃ r ∈ (first, last) :: runs uid uid uids, r.1 ≤ n ∧ n ≤ r.2) ↔
          first ≤ n ∧ n ≤ last ∨ ∃ r ∈ runs uid uid uids, r.1 ≤ n ∧ n ≤ r.2 := by simp
      have huid : uid ≤ n ∧ n ≤ uid ↔ n = uid := by omega
      rw [hhead, ih le_rfl hrest, huid]

theorem runs_le {first last bound : ℕ} {uids : List ℕ} (hfirst : first ≤ bound)
    (hlast : last ≤ bound) (huids : ∀ uid ∈ uids, uid ≤ bound) :
    ∀ r ∈ runs first last uids, r.1 ≤ bound ∧ r.2 ≤ bound := by
  induction uids generalizing first last with
  | nil =>
    intro r hr
    obtain rfl := List.mem_singleton.1 hr
    exact ⟨hfirst, hlast⟩
  | cons uid uids ih =>
    have huid := huids uid List.mem_cons_self
    have hrest : ∀ uid ∈ uids, uid ≤ bound := fun u hu => huids u (List.mem_cons_of_mem _ hu)
    intro r hr
    rw [runs] at hr
    split_ifs at hr with hsucc
    · exact ih hfirst huid hrest r hr
    · rcases List.mem_cons.1 hr with rfl | hr
      · exact ⟨hfirst, hlast⟩
      · exact ih huid huid hrest r hr

/-- The text of the ranges is read as the ranges. -/
theorem readSet_ranges {first last : ℕ} {uids : List ℕ} (hfirst : first ≤ u32Max)
    (hlast : last ≤ u32Max) (huids : ∀ uid ∈ uids, uid ≤ u32Max) :
    readSet (String.intercalate "," (ranges first last uids)) = some (runs first last uids) := by
  have hbound := runs_le hfirst hlast huids
  have hread : ∀ rs : List (ℕ × ℕ), (∀ r ∈ rs, r.1 ≤ u32Max ∧ r.2 ≤ u32Max) →
      (rs.map fun r => (rangeText r.1 r.2).toList).mapM readRange = some rs := by
    intro rs
    induction rs with
    | nil => exact fun _ => rfl
    | cons r rs ih =>
      intro h
      obtain ⟨hlow, hhigh⟩ := h r List.mem_cons_self
      have hrest := ih fun x hx => h x (List.mem_cons_of_mem _ hx)
      rw [List.map_cons, List.mapM_cons, readRange_rangeText hlow hhigh, hrest]
      rfl
  rw [readSet, ranges_eq_map_runs, splitOn_intercalate (by simpa using runs_ne_nil _ _ _),
    List.map_map]
  · exact hread _ hbound
  · intro part hpart
    obtain ⟨r, -, rfl⟩ := List.mem_map.1 hpart
    exact comma_not_mem_rangeText r.1 r.2

/-- The numbers of a list are what its text denotes. -/
theorem denotes_collapseUids {uids : List ℕ} (hne : uids ≠ []) (h : ∀ uid ∈ uids, uid ≤ u32Max) :
    Denotes (collapseUids uids) (· ∈ uids) := by
  have hmem (n : ℕ) : n ∈ uids.insertionSort (· ≤ ·) ↔ n ∈ uids := List.mem_insertionSort _
  have hsorted : (uids.insertionSort (· ≤ ·)).Pairwise (· ≤ ·) := List.pairwise_insertionSort _ uids
  rw [collapseUids]
  cases hsort : uids.insertionSort (· ≤ ·) with
  | nil =>
    rw [hsort] at hmem
    obtain ⟨uid, huid⟩ := List.exists_mem_of_ne_nil uids hne
    exact absurd ((hmem uid).2 huid) List.not_mem_nil
  | cons uid rest =>
    rw [hsort] at hmem hsorted
    have huid := h uid ((hmem uid).1 List.mem_cons_self)
    have hrest : ∀ u ∈ rest, u ≤ u32Max := fun u hu =>
      h u ((hmem u).1 (List.mem_cons_of_mem _ hu))
    refine ⟨runs uid uid rest, readSet_ranges huid huid hrest, fun n => ?_⟩
    have heq : uid ≤ n ∧ n ≤ uid ↔ n = uid := by omega
    show _ ↔ n ∈ uids
    rw [mem_runs le_rfl hsorted, heq, ← hmem n, List.mem_cons]

/-! ### The additions of the loop -/

section Additions

variable {next : UInt32 → Option UInt32} {first last : UInt32} {uids : List UInt32}

/-- The largest number has no number behind it, wrapped or not. -/
theorem eq_next_iff {last uid : UInt32} (h : last ≤ uid) :
    uid = last + 1 ↔ uid.toNat = last.toNat + 1 := by
  rw [← UInt32.toNat_inj, UInt32.toNat_add]
  have hle := UInt32.le_iff_toNat_le.1 h
  have hlt := uid.toNat_lt
  have hone : (1 : UInt32).toNat = 1 := rfl
  omega

/-- Whatever the build does past the largest number, the ranges are the same. -/
theorem rangesBy_eq (hnext : ∀ n m, next n = some m → m = n + 1)
    (hsorted : (last :: uids).Pairwise (· ≤ ·)) {parts : List String}
    (h : rangesBy next first last uids = some parts) :
    parts = ranges first.toNat last.toNat (uids.map UInt32.toNat) := by
  induction uids generalizing first last parts with
  | nil =>
    cases h
    rfl
  | cons uid uids ih =>
    obtain ⟨hlast, hrest⟩ := List.pairwise_cons.1 hsorted
    rw [rangesBy, Option.bind_eq_bind, Option.bind_eq_some_iff] at h
    obtain ⟨following, hfollowing, h⟩ := h
    obtain rfl := hnext last following hfollowing
    rw [List.map_cons, ranges]
    simp only [eq_next_iff (hlast uid List.mem_cons_self)] at h
    split_ifs at h ⊢ with hsucc
    · exact ih hrest h
    · obtain ⟨parts, hparts, rfl⟩ := Option.map_eq_some_iff.1 h
      rw [ih hrest hparts]

theorem rangesBy_isSome (hsorted : (last :: uids).Pairwise (· ≤ ·)) :
    (rangesBy checkedNext first last uids).isSome = true ↔ (last :: uids).count maxUid ≤ 1 := by
  induction uids generalizing first last with
  | nil =>
    have hcount : [last].count maxUid ≤ [last].length := List.count_le_length
    exact iff_of_true rfl hcount
  | cons uid uids ih =>
    obtain ⟨hlast, hrest⟩ := List.pairwise_cons.1 hsorted
    rw [rangesBy, checkedNext]
    by_cases hmax : last = maxUid
    · -- the next number is as large, so it is the same again
      have huid : uid = maxUid := by
        have hle := UInt32.le_iff_toNat_le.1 (hlast uid List.mem_cons_self)
        have hlt := uid.toNat_lt
        have htop : maxUid.toNat = 4294967295 := rfl
        rw [hmax] at hle
        exact UInt32.toNat_inj.1 (by omega)
      subst hmax huid
      simp
    · rw [if_neg hmax, Option.bind_eq_bind, Option.bind_some,
        List.count_cons_of_ne (fun h => hmax h)]
      split_ifs with hsucc
      · exact ih hrest
      · rw [Option.isSome_map]
        exact ih hrest

end Additions

theorem collapseUidsBy_eq {next : UInt32 → Option UInt32}
    (hnext : ∀ n m, next n = some m → m = n + 1) {uids : List UInt32} {text : String}
    (h : collapseUidsBy next uids = some text) :
    text = collapseUids (uids.map UInt32.toNat) := by
  have hsort : (uids.insertionSort (· ≤ ·)).map UInt32.toNat =
      (uids.map UInt32.toNat).insertionSort (· ≤ ·) :=
    List.map_insertionSort _ _ _ _ fun a _ b _ => UInt32.le_iff_toNat_le
  have hsorted : (uids.insertionSort (· ≤ ·)).Pairwise (· ≤ ·) := List.pairwise_insertionSort _ uids
  rw [collapseUids, ← hsort]
  rw [collapseUidsBy] at h
  cases hlist : uids.insertionSort (· ≤ ·) with
  | nil =>
    rw [hlist] at h
    cases h
    rfl
  | cons uid rest =>
    rw [hlist] at h hsorted
    obtain ⟨parts, hparts, rfl⟩ := Option.map_eq_some_iff.1 h
    rw [rangesBy_eq hnext hsorted hparts, List.map_cons]

theorem collapseUidsBy_isSome (uids : List UInt32) :
    (collapseUidsBy checkedNext uids).isSome = true ↔ uids.count maxUid ≤ 1 := by
  have hsorted : (uids.insertionSort (· ≤ ·)).Pairwise (· ≤ ·) := List.pairwise_insertionSort _ uids
  rw [← (List.perm_insertionSort (· ≤ ·) uids).count_eq, collapseUidsBy]
  cases hlist : uids.insertionSort (· ≤ ·) with
  | nil => simp
  | cons uid rest =>
    rw [hlist] at hsorted
    rw [Option.isSome_map]
    exact rangesBy_isSome hsorted

theorem checkedNext_eq {n m : UInt32} (h : checkedNext n = some m) : m = n + 1 := by
  rw [checkedNext] at h
  split_ifs at h
  cases h
  rfl

/-- What is written denotes the numbers of the list. -/
theorem denotes_collapseUidsBy {next : UInt32 → Option UInt32}
    (hnext : ∀ n m, next n = some m → m = n + 1) {uids : List UInt32} (hne : uids ≠ [])
    {text : String} (h : collapseUidsBy next uids = some text) :
    Denotes text fun n => ∃ uid ∈ uids, uid.toNat = n := by
  have hbound : ∀ n ∈ uids.map UInt32.toNat, n ≤ u32Max := by
    intro n hn
    obtain ⟨uid, -, rfl⟩ := List.mem_map.1 hn
    exact Nat.le_of_lt_succ uid.toNat_lt
  have hdenotes := denotes_collapseUids (by simpa using hne) hbound
  rw [← collapseUidsBy_eq hnext h] at hdenotes
  obtain ⟨rs, hread, hrs⟩ := hdenotes
  exact ⟨rs, hread, fun n => (hrs n).trans List.mem_map⟩

theorem rangesBy_wrapping (first last : UInt32) (uids : List UInt32) :
    (rangesBy wrappingNext first last uids).isSome = true := by
  induction uids generalizing first last with
  | nil => rfl
  | cons uid uids ih =>
    rw [rangesBy, wrappingNext, Option.bind_eq_bind, Option.bind_some]
    split_ifs with hsucc
    · exact ih first uid
    · rw [Option.isSome_map]
      exact ih uid uid

theorem collapseUidsBy_wrapping (uids : List UInt32) :
    (collapseUidsBy wrappingNext uids).isSome = true := by
  rw [collapseUidsBy]
  cases uids.insertionSort (· ≤ ·) with
  | nil => rfl
  | cons uid rest =>
    rw [Option.isSome_map]
    exact rangesBy_wrapping uid uid rest

/-- The additions stay in the type exactly if the largest number occurs at most once; a build that
wraps writes the numbers of every list. -/
theorem collapses_iff (uids : List UInt32) (hne : uids ≠ []) :
    (Collapses uids ↔ uids.count maxUid ≤ 1) ∧
      ∃ text, collapseUidsBy wrappingNext uids = some text ∧
        Denotes text fun n => ∃ uid ∈ uids, uid.toNat = n := by
  refine ⟨?_, ?_⟩
  · rw [← collapseUidsBy_isSome]
    constructor
    · rintro ⟨text, htext, -⟩
      rw [htext]
      rfl
    · intro h
      obtain ⟨text, htext⟩ := Option.isSome_iff_exists.1 h
      exact ⟨text, htext, denotes_collapseUidsBy (fun _ _ => checkedNext_eq) hne htext⟩
  · obtain ⟨text, htext⟩ := Option.isSome_iff_exists.1 (collapseUidsBy_wrapping uids)
    refine ⟨text, htext, denotes_collapseUidsBy (fun n m h => ?_) hne htext⟩
    exact (Option.some.inj h).symm

theorem collapses_four : Collapses [7, 5, 6, 4294967295] :=
  (collapses_iff [7, 5, 6, 4294967295] (by decide)).1.2 (by decide)

/-- The largest number twice. -/
theorem not_collapses_twice : ¬ Collapses [4294967295, 4294967295] := by
  rintro ⟨text, htext, -⟩
  have hnone : collapseUidsBy checkedNext [4294967295, 4294967295] = none := by decide
  rw [hnone] at htext
  cases htext

end EraseMe.Email.Imap
