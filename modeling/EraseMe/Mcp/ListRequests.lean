import EraseMe.Library.Paging
import EraseMe.Storage.Projection

/-!
# `mcp::handler`: the list of requests

`listRequests` answers one page of the requests that meet the filters.  The page number and the page
size come as JSON numbers and are read as doubles; their product is the offset, in 64 bits.

The rows are sorted by their creation time only, so the engine orders requests of one second as it
likes, and may do so differently for each page.  An offset that wraps to a negative number is taken
for zero and shows the first page again.  `paged_iff` says when the pages show every request once
all the same.
-/

namespace EraseMe.Mcp

open Chrono Json Paging Sqlite Storage

variable {τ : Type}

/-! ### Arguments -/

/-- A text among the arguments; an empty one is absent. -/
def optionalStr (arguments : Map) (key : String) : Option String :=
  ((arguments.get key).bind asStr).filter (· ≠ "")

/-- A double as a 64-bit integer: toward zero, and to the nearest bound. -/
def saturate (number : ℤ × ℤ) : ℤ := max i64Min (min Json.i64Max (truncate number))

/-- A number among the arguments. -/
def getInt (arguments : Map) (key : String) (default : ℤ) : ℤ :=
  (((arguments.get key).bind asF64).map saturate).getD default

/-! ### Rows -/

/-- An instant by RFC 3339. -/
def instant (t : DateTime) : String :=
  String.ofList (format (wall (.literal 'T') ++ [.fraction, .literal 'Z']) t)

/-- A timestamp column; what is none stays as it is. -/
def timestamp (value : String) : Json :=
  match Timeutil.parse value with
  | .ok t => .string (instant t)
  | .error _ => .string value

/-- A timestamp or `null`. -/
def nullableTimestamp (value : Option String) : Json := (value.map timestamp).getD .null

/-- A request as it is shown. -/
def requestRow (row : RemovalRequestRow) : Json :=
  .object [("id", .int row.id), ("broker_id", .string row.brokerId),
    ("channel", .string row.channel), ("campaign_id", .string row.campaignId),
    ("created_at", timestamp row.createdAt), ("jurisdiction", .string row.jurisdiction),
    ("template_id", .string row.templateId),
    ("identity_snapshot_hash", .string row.identitySnapshotHash),
    ("current_status", (row.currentStatus.map Json.string).getD .null),
    ("last_event_at", nullableTimestamp row.lastEventAt),
    ("sent_at", nullableTimestamp row.sentAt),
    ("acknowledged_at", nullableTimestamp row.acknowledgedAt),
    ("resolved_at", nullableTimestamp row.resolvedAt),
    ("deadline_at", nullableTimestamp row.deadlineAt),
    ("next_action_at", nullableTimestamp row.nextActionAt),
    ("reminders_sent", .int row.remindersSent), ("escalation_level", .int row.escalationLevel)]

/-- No rows are `null`. -/
def requestRows (rows : List RemovalRequestRow) : Json :=
  if rows.isEmpty then .null else .array (rows.map requestRow)

/-! ### The tool -/

/-- The filters of the arguments. -/
def filtersOf (arguments : Map) : ListRemovalRequestsOptions where
  campaignId := optionalStr arguments "campaign_id"
  status := optionalStr arguments "status"
  brokerId := optionalStr arguments "broker_id"

/-- A page of stored requests, and how many the campaign and the status admit. -/
def listRequests (arguments : Map) : Db Store τ String Json := do
  let page := getInt arguments "page" 1
  if page < 1 then fail "page must be at least 1"
  else
    let pageSize := getInt arguments "page_size" 100
    if pageSize < 1 then fail "page_size must be at least 1"
    else do
      let options := filtersOf arguments
      let requests ← listRemovalRequests { options with
        limit := some pageSize
        offset := some (wrapI64 ((page - 1) * pageSize)) }
      let total ← countRemovalRequests options.campaignId options.status
      return .object [("requests", requestRows requests), ("total", .int total),
        ("page", .int page), ("page_size", .int pageSize)]

/-! ### Paging through the list -/

/-- The arguments that ask for a page of some size. -/
def askFor (arguments : Map) (page pageSize : ℤ) : Map :=
  (arguments.insert "page" (.int page)).insert "page_size" (.int pageSize)

/-- The rows of an answer. -/
def rowsOf (answer : Json) : List Json :=
  match answer with
  | .object fields => (((Map.get fields "requests").bind asArray)).getD []
  | _ => []

/-- The requests that meet the filters. -/
def matching (db : Store) (arguments : Map) : List RemovalRequestRow :=
  (db.requests.rows.map db.joined).filter (filtersOf arguments).admits

/-- The key the requests are sorted by. -/
abbrev createdAt (row : RemovalRequestRow) : String := row.createdAt

/-- The number of pages. -/
def lastPage (db : Store) (arguments : Map) (pageSize : ℤ) : ℕ :=
  ((matching db arguments).length + pageSize.toNat - 1) / pageSize.toNat

/-- What each page shows: every request once, the pages before the last full, and those asked for
past the last one empty. -/
structure Complete (db : Store) (arguments : Map) (pageSize : ℤ) (asked : ℤ → Prop)
    (shown : ℤ → List Json) : Prop where
  once : ((List.range (lastPage db arguments pageSize)).flatMap fun k : ℕ => shown (k + 1)).Perm
    ((matching db arguments).map requestRow)
  full : ∀ page : ℤ, 1 ≤ page → page < lastPage db arguments pageSize →
    ((shown page).length : ℤ) = pageSize
  past : ∀ page : ℤ, (lastPage db arguments pageSize : ℤ) < page → asked page → shown page = []

/-- However the engine orders equal rows in each statement, the pages are complete. -/
def Paged (db : Store) (arguments : Map) (pageSize : ℤ) (asked : ℤ → Prop) : Prop :=
  ∀ replies : ℤ → ℕ → Reply, (∀ page n, Faultless (replies page n)) →
    ∃ shown : ℤ → List Json,
      (∀ page, 1 ≤ page →
        (listRequests (askFor arguments page pageSize)
          (⟨db, [], replies page⟩ : Conn Store Unit)).1.map rowsOf = .ok (shown page)) ∧
      Complete db arguments pageSize asked shown

/-- The creation times of the matching requests, in order. -/
def creationTimes (db : Store) (arguments : Map) : List String :=
  ((matching db arguments).map createdAt).insertionSort (· ≤ ·)

/-- No two matching requests of one time stand on different sides of a page boundary. -/
def Separated (db : Store) (arguments : Map) (pageSize : ℤ) : Prop :=
  ∀ k, Cut (k * pageSize.toNat) (creationTimes db arguments)

/-- The page numbers and offsets that a double and 64 bits can hold. -/
def InRange (pageSize page : ℤ) : Prop := page ≤ 2 ^ 53 ∧ (page - 1) * pageSize ≤ Json.i64Max

/-! ### Numbers through a double -/

/-- What is read of an integer. -/
def throughDouble (n : ℤ) : ℤ := saturate (n.sign * round53 n.natAbs, 0)

theorem round53_of_le {n : ℕ} (h : n ≤ 2 ^ 53) : round53 n = n := by
  rcases Nat.lt_or_eq_of_le h with hlt | rfl
  · rw [round53, if_pos hlt]
  · decide

theorem le_round53 {n : ℕ} (h : 2 ^ 53 ≤ n) : 2 ^ 53 ≤ round53 n := by
  have hlog : 53 ≤ Nat.log2 n := (Nat.le_log2 (by omega)).2 h
  have hself : 2 ^ Nat.log2 n ≤ n := Nat.log2_self_le (by omega)
  have hunit : 2 ^ 52 * 2 ^ (Nat.log2 n - 52) = 2 ^ Nat.log2 n := by
    rw [← Nat.pow_add]
    congr 1
    omega
  have hquotient : 2 ^ 52 ≤ n / 2 ^ (Nat.log2 n - 52) := by
    rw [Nat.le_div_iff_mul_le (Nat.two_pow_pos _), hunit]
    exact hself
  have hpow : 2 ^ 53 ≤ 2 ^ Nat.log2 n := Nat.pow_le_pow_right (by omega) hlog
  rw [round53, if_neg (by omega)]
  calc 2 ^ 53 ≤ 2 ^ 52 * 2 ^ (Nat.log2 n - 52) := by rw [hunit]; exact hpow
    _ ≤ _ := Nat.mul_le_mul_right _ (by split_ifs <;> omega)

theorem throughDouble_natCast (n : ℕ) :
    throughDouble n = min Json.i64Max (round53 n : ℤ) := by
  have hself : (n : ℤ).sign * (round53 (n : ℤ).natAbs : ℤ) = round53 n := by
    rcases Nat.eq_zero_or_pos n with rfl | hn
    · rfl
    · rw [Int.sign_eq_one_of_pos (by omega), one_mul, Int.natAbs_natCast]
  rw [throughDouble, hself, saturate, truncate, if_pos le_rfl]
  simp only [Int.toNat_zero, pow_zero, mul_one]
  rw [max_eq_right]
  unfold i64Min Json.i64Max
  omega

theorem throughDouble_of_le {n : ℤ} (h0 : 0 ≤ n) (h : n ≤ 2 ^ 53) : throughDouble n = n := by
  obtain ⟨k, rfl⟩ := Int.eq_ofNat_of_zero_le h0
  rw [throughDouble_natCast, round53_of_le (by omega)]
  unfold Json.i64Max
  omega

theorem le_throughDouble {n : ℤ} (h : 2 ^ 53 ≤ n) : 2 ^ 53 ≤ throughDouble n := by
  obtain ⟨k, rfl⟩ := Int.eq_ofNat_of_zero_le (show 0 ≤ n by omega)
  have hle := le_round53 (n := k) (by omega)
  rw [throughDouble_natCast]
  unfold Json.i64Max
  omega

theorem throughDouble_le {n : ℤ} (h0 : 0 ≤ n) : throughDouble n ≤ Json.i64Max := by
  obtain ⟨k, rfl⟩ := Int.eq_ofNat_of_zero_le h0
  rw [throughDouble_natCast]
  exact min_le_left _ _

theorem one_le_throughDouble {n : ℤ} (h : 1 ≤ n) : 1 ≤ throughDouble n := by
  rcases le_total n (2 ^ 53) with hle | hle
  · rw [throughDouble_of_le (by omega) hle]
    exact h
  · have := le_throughDouble hle
    omega

theorem two_le_throughDouble {n : ℤ} (h : 2 ≤ n) : 2 ≤ throughDouble n := by
  rcases le_total n (2 ^ 53) with hle | hle
  · rw [throughDouble_of_le (by omega) hle]
    exact h
  · have := le_throughDouble hle
    omega

theorem wrapI64_eq_self {n : ℤ} (h0 : 0 ≤ n) (h : n ≤ Json.i64Max) : wrapI64 n = n := by
  unfold wrapI64 Json.i64Max at *
  omega

theorem wrapI64_neg {n : ℤ} (hlo : 2 ^ 63 ≤ n) (hhi : n < 2 ^ 64) : wrapI64 n < 0 := by
  unfold wrapI64
  omega

/-- An offset that is just too large, for sizes between two powers of two. -/
theorem overflow_page {j : ℕ} (hj : 1 ≤ j ∧ j ≤ 10) {size : ℤ} (hlo : 2 ^ j ≤ size)
    (hhi : size < 2 ^ (j + 1)) :
    let page : ℤ := 2 ^ (63 - j) + 2 ^ (43 - j)
    1 < page ∧ page ≤ Json.i64Max ∧ throughDouble page = page ∧
      wrapI64 ((page - 1) * size) < 0 := by
  obtain ⟨h1, h10⟩ := hj
  have hwrap (page : ℤ) (hle : 2 ^ 63 ≤ (page - 1) * size) (hlt : (page - 1) * size < 2 ^ 64) :
      wrapI64 ((page - 1) * size) < 0 := wrapI64_neg hle hlt
  interval_cases j <;> exact ⟨by decide, by decide, by decide, hwrap _ (by omega) (by omega)⟩

/-- Some page number, read as it is, has an offset that wraps to a negative number. -/
theorem exists_overflow {size : ℤ} (h2 : 2 ≤ size) (hmax : size ≤ Json.i64Max) :
    ∃ page, 1 < page ∧ page ≤ Json.i64Max ∧ throughDouble page = page ∧
      wrapI64 ((page - 1) * size) < 0 := by
  rcases le_or_gt 2048 size with hbig | hsmall
  · -- the first offset that does not fit belongs to a page a double can hold
    have hpos : 0 < size := by omega
    have hmod := Int.emod_add_mul_ediv (2 ^ 63 + size - 1) size
    have hnonneg := Int.emod_nonneg (2 ^ 63 + size - 1) hpos.ne'
    have hlt := Int.emod_lt_of_pos (2 ^ 63 + size - 1) hpos
    generalize (2 ^ 63 + size - 1) / size = x at hmod
    have hfits : 2 ^ 63 ≤ x * size := by
      rw [mul_comm]
      omega
    have hless : x * size < 2 ^ 63 + size := by
      rw [mul_comm]
      omega
    have hx : 1 < x := by
      by_contra hx
      have : x * size ≤ 1 * size := Int.mul_le_mul_of_nonneg_right (by omega) hpos.le
      unfold Json.i64Max at hmax
      omega
    have hx53 : x < 2 ^ 53 := by
      by_contra hx53
      have h := Int.mul_le_mul_of_nonneg_right (show (2 : ℤ) ^ 53 - 1 ≤ x - 1 by omega) hpos.le
      rw [Int.sub_mul x, one_mul] at h
      omega
    refine ⟨x + 1, by omega, by unfold Json.i64Max; omega,
      throughDouble_of_le (by omega) (by omega), ?_⟩
    rw [Int.add_sub_cancel]
    unfold Json.i64Max at hmax
    exact wrapI64_neg hfits (by omega)
  · obtain ⟨n, rfl⟩ := Int.eq_ofNat_of_zero_le (show 0 ≤ size by omega)
    have hlog : 1 ≤ Nat.log2 n ∧ Nat.log2 n ≤ 10 :=
      ⟨(Nat.le_log2 (by omega)).2 (by omega),
        Nat.lt_succ_iff.1 ((Nat.log2_lt (by omega)).2 (by omega))⟩
    exact ⟨_, overflow_page hlog (by exact_mod_cast Nat.log2_self_le (by omega))
      (by exact_mod_cast Nat.lt_log2_self)⟩

/-! ### What a page shows -/

/-- The matching requests in the order of a statement. -/
def sortedRows (db : Store) (arguments : Map) (rank : ℤ → ℕ) : List RemovalRequestRow :=
  (matching db arguments).insertionSort (CreatedLe rank)

/-- The offset of a page, as the program computes it. -/
def offsetOf (page pageSize : ℤ) : ℤ :=
  wrapI64 ((throughDouble page - 1) * throughDouble pageSize)

/-- The rows of a page. -/
def pageRows (db : Store) (arguments : Map) (pageSize : ℤ) (rank : ℤ → ℕ) (page : ℤ) :
    List RemovalRequestRow :=
  ((sortedRows db arguments rank).drop (offsetOf page pageSize).toNat).take
    (throughDouble pageSize).toNat

theorem getInt_int {arguments : Map} {key : String} {default n : ℤ}
    (h : arguments.get key = some (.int n)) : getInt arguments key default = throughDouble n := by
  rw [getInt, h]
  rfl

section AskFor

variable (arguments : Map) (page pageSize : ℤ)

theorem get_askFor_page : (askFor arguments page pageSize).get "page" = some (.int page) := by
  rw [askFor, Map.get_insert, if_neg (by decide), Map.get_insert, if_pos rfl]

theorem get_askFor_pageSize :
    (askFor arguments page pageSize).get "page_size" = some (.int pageSize) := by
  rw [askFor, Map.get_insert, if_pos rfl]

theorem filtersOf_askFor : filtersOf (askFor arguments page pageSize) = filtersOf arguments := by
  have hother {key : String} (h : key ≠ "page") (h' : key ≠ "page_size") :
      optionalStr (askFor arguments page pageSize) key = optionalStr arguments key := by
    rw [optionalStr, askFor, Map.get_insert, if_neg h', Map.get_insert, if_neg h, ← optionalStr]
  rw [filtersOf, hother (by decide) (by decide), hother (by decide) (by decide),
    hother (by decide) (by decide), ← filtersOf]

end AskFor

theorem rowsOf_requestRows (rows : List RemovalRequestRow) (fields : List (String × Json)) :
    rowsOf (.object (("requests", requestRows rows) :: fields)) = rows.map requestRow := by
  rw [rowsOf, Map.get_cons, if_pos rfl, requestRows]
  cases rows with
  | nil => rfl
  | cons row rows => rfl

/-- The answer for a page, when no statement fails. -/
theorem listRequests_run (db : Store) (arguments : Map) {page pageSize : ℤ} (hpage : 1 ≤ page)
    (hsize : 1 ≤ pageSize) {replies : ℕ → Reply} (hok : ∀ n, Faultless (replies n)) :
    (listRequests (askFor arguments page pageSize)
      (⟨db, [], replies⟩ : Conn Store Unit)).1.map rowsOf =
      .ok ((pageRows db arguments pageSize (replies 0).rank page).map requestRow) := by
  have hp := one_le_throughDouble hpage
  have hs := one_le_throughDouble hsize
  rw [listRequests, getInt_int (get_askFor_page arguments page pageSize),
    getInt_int (get_askFor_pageSize arguments page pageSize), filtersOf_askFor,
    if_neg (by omega), if_neg (by omega)]
  have hlist : listRemovalRequests { filtersOf arguments with
      limit := some (throughDouble pageSize)
      offset := some (wrapI64 ((throughDouble page - 1) * throughDouble pageSize)) }
      (⟨db, [], replies⟩ : Conn Store Unit) =
      (.ok (pageRows db arguments pageSize (replies 0).rank page),
        ⟨db, [], fun n => replies (n + 1)⟩) := by
    rw [listRemovalRequests, query_run, show (replies 0).error = none from hok 0]
    simp only [paginate, Option.getD_some, if_neg (show ¬ throughDouble pageSize < 0 by omega)]
    rfl
  obtain ⟨total, hcount⟩ : ∃ total, countRemovalRequests (filtersOf arguments).campaignId
      (filtersOf arguments).status (⟨db, [], fun n => replies (n + 1)⟩ : Conn Store Unit) =
      (.ok total, ⟨db, [], fun n => replies (n + 2)⟩) := by
    rw [countRemovalRequests, query_run, show (replies 1).error = none from hok 1]
    exact ⟨_, rfl⟩
  rw [bind_run_ok hlist, bind_run_ok hcount]
  exact congrArg Except.ok (rowsOf_requestRows _ _)

/-! ### The order of a statement -/

section Order

variable (rank : ℤ → ℕ)

instance : Std.Total (CreatedLe rank) := ⟨fun a b => by
  rcases lt_trichotomy a.createdAt b.createdAt with h | h | h
  · exact Or.inl (Or.inl h)
  · exact (tieLe_total rank a.id b.id).imp (fun ht => Or.inr ⟨h, ht⟩) fun ht => Or.inr ⟨h.symm, ht⟩
  · exact Or.inr (Or.inl h)⟩

instance : IsTrans RemovalRequestRow (CreatedLe rank) := ⟨fun a b c hab hbc => by
  rcases hab with hab | ⟨hab, htab⟩
  · rcases hbc with hbc | ⟨hbc, -⟩
    · exact Or.inl (hab.trans hbc)
    · exact Or.inl (hbc ▸ hab)
  · rcases hbc with hbc | ⟨hbc, htbc⟩
    · exact Or.inl (hab ▸ hbc)
    · exact Or.inr ⟨hab.trans hbc, tieLe_trans htab htbc⟩⟩

variable (db : Store) (arguments : Map)

theorem sortedRows_perm : (sortedRows db arguments rank).Perm (matching db arguments) :=
  List.perm_insertionSort _ _

theorem sortedBy_sortedRows :
    SortedBy createdAt (sortedRows db arguments rank) := by
  refine List.pairwise_map.2 ((List.pairwise_insertionSort (CreatedLe rank) _).imp ?_)
  rintro a b (h | ⟨h, -⟩)
  · exact h.le
  · exact h.le

/-- No two matching requests have one id. -/
theorem nodup_ids : ((matching db arguments).map fun row => row.id).Nodup := by
  have hids : ((db.requests.rows.map db.joined).map fun row => row.id).Nodup := by
    rw [List.map_map]
    exact List.pairwise_map.2 (db.requests.ascending.imp fun h => ne_of_lt h)
  exact (List.filter_sublist.map _).nodup hids

/-- Every order that is sorted by the creation time is that of some engine. -/
theorem exists_rank {l : List RemovalRequestRow} (hperm : l.Perm (matching db arguments))
    (hl : SortedBy createdAt l) :
    ∃ rank, sortedRows db arguments rank = l := by
  have hids : (l.map fun row => row.id).Nodup := (hperm.map _).nodup_iff.2 (nodup_ids db arguments)
  let rank : ℤ → ℕ := fun id => (l.map fun row => row.id).idxOf id
  have hrank (i : ℕ) (hi : i < l.length) : rank l[i].id = i := by
    have h := hids.idxOf_getElem i (by simpa using hi)
    rwa [List.getElem_map] at h
  refine ⟨rank, List.Perm.eq_of_pairwise (fun a b ha hb hab hba => ?_)
    (List.pairwise_insertionSort (CreatedLe rank) _) ?_
    ((sortedRows_perm rank db arguments).trans hperm.symm)⟩
  · have hab' : rank a.id = rank b.id := by
      unfold CreatedLe TieLe at hab hba
      rcases hab with hab | ⟨hab, htab⟩
      · rcases hba with hba | ⟨hba, -⟩
        · exact absurd (hab.trans hba) (lt_irrefl _)
        · exact absurd (hba ▸ hab) (lt_irrefl _)
      · rcases hba with hba | ⟨-, htba⟩
        · exact absurd (hab ▸ hba) (lt_irrefl _)
        · omega
    have hla : a ∈ l := hperm.symm.subset ((List.mem_insertionSort _).1 ha)
    obtain ⟨i, hi, rfl⟩ := List.getElem_of_mem hla
    obtain ⟨j, hj, rfl⟩ := List.getElem_of_mem hb
    rw [hrank i hi, hrank j hj] at hab'
    subst hab'
    rfl
  · rw [List.pairwise_iff_getElem]
    intro i j hi hj hij
    have hle := List.pairwise_iff_getElem.1 hl i j (by simpa using hi) (by simpa using hj) hij
    rw [List.getElem_map, List.getElem_map] at hle
    rcases lt_or_eq_of_le hle with h | h
    · exact Or.inl h
    · refine Or.inr ⟨h, Or.inl ?_⟩
      rw [hrank i hi, hrank j hj]
      exact hij

end Order

/-! ### Complete pages -/

section Pages

variable {db : Store} {arguments : Map} {pageSize : ℤ} {asked : ℤ → Prop} {shown : ℤ → List Json}

/-- The pages are those of `pageRows`. -/
theorem paged_iff_pageRows (hsize : 1 ≤ pageSize) :
    Paged db arguments pageSize asked ↔ ∀ rank : ℤ → ℤ → ℕ, ∃ shown : ℤ → List Json,
      (∀ page, 1 ≤ page →
        shown page = (pageRows db arguments pageSize (rank page) page).map requestRow) ∧
      Complete db arguments pageSize asked shown := by
  constructor
  · intro h rank
    have hok (page : ℤ) (_ : ℕ) : Faultless { Reply.plain with rank := rank page } := rfl
    obtain ⟨shown, hshown, hcomplete⟩ := h (fun page _ => { Reply.plain with rank := rank page }) hok
    refine ⟨shown, fun page hpage => ?_, hcomplete⟩
    have hrun := hshown page hpage
    rw [listRequests_run db arguments hpage hsize fun n => hok page n] at hrun
    exact (Except.ok.inj hrun).symm
  · intro h replies hok
    obtain ⟨shown, hshown, hcomplete⟩ := h fun page => (replies page 0).rank
    refine ⟨shown, fun page hpage => ?_, hcomplete⟩
    rw [listRequests_run db arguments hpage hsize (hok page), hshown page hpage]

theorem requestRow_ne {a b : RemovalRequestRow} (h : a.id ≠ b.id) : requestRow a ≠ requestRow b := by
  intro heq
  simp only [requestRow, Json.object.injEq, List.cons.injEq, Prod.mk.injEq, Json.int.injEq] at heq
  exact h heq.1.2

theorem nodup_requestRow : ((matching db arguments).map requestRow).Nodup := by
  have hids := nodup_ids db arguments
  rw [List.Nodup, List.pairwise_map] at hids ⊢
  exact hids.imp requestRow_ne

/-- No row is on two pages. -/
theorem Complete.page_unique (h : Complete db arguments pageSize asked shown) {j k : ℤ} (hj : 1 ≤ j)
    (hk : 1 ≤ k) (hj' : j ≤ lastPage db arguments pageSize)
    (hk' : k ≤ lastPage db arguments pageSize) {v : Json} (hvj : v ∈ shown j) (hvk : v ∈ shown k) :
    j = k := by
  have hnodup := h.once.nodup_iff.2 nodup_requestRow
  have hpair := (List.nodup_flatMap.1 hnodup).2
  by_contra hne
  have hdisjoint {m n : ℕ} (hmn : m < n) (hn : n < lastPage db arguments pageSize) :
      (shown (m + 1)).Disjoint (shown (n + 1)) := by
    rw [List.pairwise_iff_getElem] at hpair
    have hpair' := hpair m n (by simp; omega) (by simpa using hn) hmn
    simpa using hpair'
  obtain ⟨m, rfl⟩ : ∃ m : ℕ, j = m + 1 := ⟨(j - 1).toNat, by omega⟩
  obtain ⟨n, rfl⟩ : ∃ n : ℕ, k = n + 1 := ⟨(k - 1).toNat, by omega⟩
  rcases Nat.lt_or_gt_of_ne (show m ≠ n by omega) with hlt | hlt
  · exact hdisjoint hlt (by omega) hvj hvk
  · exact hdisjoint hlt (by omega) hvk hvj

end Pages

/-! ### When the pages are complete -/

section Main

variable {db : Store} {arguments : Map} {pageSize : ℤ} {asked : ℤ → Prop}

theorem map_sortedRows (rank : ℤ → ℕ) :
    (sortedRows db arguments rank).map createdAt = creationTimes db arguments := by
  have hperm : ((sortedRows db arguments rank).map createdAt).Perm (creationTimes db arguments) :=
    ((sortedRows_perm rank db arguments).map createdAt).trans (List.perm_insertionSort _ _).symm
  exact hperm.eq_of_pairwise (fun _ _ _ _ hab hba => le_antisymm hab hba)
    (sortedBy_sortedRows rank db arguments) (List.pairwise_insertionSort _ _)

theorem length_sortedRows (rank : ℤ → ℕ) :
    (sortedRows db arguments rank).length = (matching db arguments).length :=
  (sortedRows_perm rank db arguments).length_eq

theorem le_lastPage_mul (hsize : 1 ≤ pageSize) :
    (matching db arguments).length ≤ lastPage db arguments pageSize * pageSize.toNat := by
  have hpos : 0 < pageSize.toNat := by omega
  have hmod := Nat.mod_add_div ((matching db arguments).length + pageSize.toNat - 1) pageSize.toNat
  have hlt := Nat.mod_lt ((matching db arguments).length + pageSize.toNat - 1) hpos
  rw [lastPage, mul_comm]
  omega

theorem lt_lastPage_iff (hsize : 1 ≤ pageSize) {k : ℕ} :
    k < lastPage db arguments pageSize ↔ k * pageSize.toNat < (matching db arguments).length := by
  have hpos : 0 < pageSize.toNat := by omega
  rw [lastPage, ← Nat.succ_le_iff, Nat.le_div_iff_mul_le hpos, Nat.succ_mul]
  omega

theorem offsetOf_eq {page : ℤ} (h1 : 1 ≤ page) (hpage : InRange pageSize page)
    (hsize : 1 ≤ pageSize) (hsmall : pageSize ≤ 2 ^ 53) :
    offsetOf page pageSize = (page - 1) * pageSize := by
  rw [offsetOf, throughDouble_of_le (by omega) hpage.1, throughDouble_of_le (by omega) hsmall]
  exact wrapI64_eq_self (Int.mul_nonneg (by omega) (by omega)) hpage.2

theorem pageRows_eq (rank : ℤ → ℕ) {k : ℕ} (hpage : InRange pageSize (k + 1))
    (hsize : 1 ≤ pageSize) (hsmall : pageSize ≤ 2 ^ 53) :
    pageRows db arguments pageSize rank (k + 1) =
      Paging.page pageSize.toNat k (sortedRows db arguments rank) := by
  rw [pageRows, offsetOf_eq (by omega) hpage hsize hsmall,
    throughDouble_of_le (by omega) hsmall, Int.add_sub_cancel, Paging.page,
    Int.toNat_mul (by omega) (by omega), Int.toNat_natCast]

/-- The pages that have rows are in range, when there are not too many. -/
theorem inRange_of_lt (hsize : 1 ≤ pageSize) (hfew : (matching db arguments).length ≤ 2 ^ 53)
    {k : ℕ} (hk : k < lastPage db arguments pageSize) : InRange pageSize (k + 1) := by
  have hlt := (lt_lastPage_iff hsize).1 hk
  have hle : k ≤ k * pageSize.toNat := Nat.le_mul_of_pos_right _ (by omega)
  have hcast : (k : ℤ) * pageSize = (k * pageSize.toNat : ℕ) := by
    rw [Nat.cast_mul, Int.toNat_of_nonneg (by omega)]
  rw [InRange, Int.add_sub_cancel, hcast]
  unfold Json.i64Max
  omega

theorem paged_of_separated (hsize : 1 ≤ pageSize) (hsmall : pageSize ≤ 2 ^ 53)
    (hfew : (matching db arguments).length ≤ 2 ^ 53) (hsep : Separated db arguments pageSize)
    (hpast : ∀ page : ℤ, (lastPage db arguments pageSize : ℤ) < page → asked page →
      ((matching db arguments).length : ℤ) ≤ offsetOf page pageSize) :
    Paged db arguments pageSize asked := by
  refine (paged_iff_pageRows hsize).2 fun rank =>
    ⟨fun page => (pageRows db arguments pageSize (rank page) page).map requestRow,
      fun _ _ => rfl, ?_, fun page h1 hlast => ?_, fun page hlast hasked => ?_⟩
  · have hcut (k : ℕ) : Cut (k * pageSize.toNat)
        ((sortedRows db arguments fun _ => 0).map createdAt) := by
      rw [map_sortedRows]
      exact hsep k
    have hrows : ((List.range (lastPage db arguments pageSize)).flatMap fun k : ℕ =>
        Paging.page pageSize.toNat k (sortedRows db arguments (rank (k + 1)))).Perm
        (sortedRows db arguments fun _ => 0) :=
      flatMap_pages_perm (fun k => ⟨sortedBy_sortedRows _ db arguments,
        (sortedRows_perm _ db arguments).trans (sortedRows_perm _ db arguments).symm⟩) hcut
        (by rw [length_sortedRows]; exact le_lastPage_mul hsize)
    have hpages : ((List.range (lastPage db arguments pageSize)).flatMap fun k : ℕ =>
        (pageRows db arguments pageSize (rank (k + 1)) (k + 1)).map requestRow) =
        ((List.range (lastPage db arguments pageSize)).flatMap fun k : ℕ =>
          Paging.page pageSize.toNat k (sortedRows db arguments (rank (k + 1)))).map requestRow := by
      rw [List.map_flatMap]
      refine List.flatMap_congr fun k hk => ?_
      rw [pageRows_eq _ (inRange_of_lt hsize hfew (List.mem_range.1 hk)) hsize hsmall]
    rw [hpages]
    exact (hrows.trans (sortedRows_perm _ db arguments)).map requestRow
  · obtain ⟨k, rfl⟩ : ∃ k : ℕ, page = k + 1 := ⟨(page - 1).toNat, by omega⟩
    have hnext : (k + 1) * pageSize.toNat < (matching db arguments).length :=
      (lt_lastPage_iff hsize).1 (by omega)
    rw [Nat.succ_mul] at hnext
    rw [List.length_map, pageRows_eq _ (inRange_of_lt hsize hfew (k := k) (by omega)) hsize hsmall,
      length_page, length_sortedRows]
    omega
  · have hpast' := hpast page hlast hasked
    simp only [pageRows]
    rw [List.drop_eq_nil_of_le (by rw [length_sortedRows]; omega), List.take_nil, List.map_nil]

/-- A tie across a boundary shows a request twice. -/
theorem separated_of_paged (hsize : 1 ≤ pageSize) (hsmall : pageSize ≤ 2 ^ 53)
    (hfew : (matching db arguments).length ≤ 2 ^ 53) (h : Paged db arguments pageSize asked) :
    Separated db arguments pageSize := by
  intro k
  by_contra hcut
  rw [← map_sortedRows fun _ => 0] at hcut
  obtain ⟨a, l', hsorted, hperm, hpos, hbefore, hafter⟩ :=
    exists_shift (sortedBy_sortedRows _ db arguments) hcut
  obtain ⟨rank', rfl⟩ := exists_rank db arguments
    (hperm.trans (sortedRows_perm _ db arguments)) hsorted
  have hk : 0 < k := Nat.pos_of_mul_pos_right hpos
  have hlong : k * pageSize.toNat < (matching db arguments).length := by
    rw [← length_sortedRows rank']
    exact (List.getElem?_eq_some_iff.1 hafter).1
  have hlast := (lt_lastPage_iff hsize).2 hlong
  -- the page before the boundary in one order, and the page behind it in the other
  obtain ⟨shown, hshown, hcomplete⟩ := (paged_iff_pageRows hsize).1 h
    fun page => if page = k then fun _ => 0 else rank'
  obtain ⟨j, rfl⟩ : ∃ j, k = j + 1 := ⟨k - 1, by omega⟩
  have hfirst : requestRow a ∈ shown (j + 1) := by
    rw [hshown _ (by omega), if_pos (by push_cast; ring),
      pageRows_eq _ (inRange_of_lt hsize hfew (by omega)) hsize hsmall]
    refine List.mem_map_of_mem (mem_page hbefore ?_ ?_)
    · rw [Nat.succ_mul]
      omega
    · omega
  have hsecond : requestRow a ∈ shown ((j + 1 : ℕ) + 1) := by
    rw [hshown _ (by omega), if_neg (by omega),
      pageRows_eq _ (inRange_of_lt hsize hfew hlast) hsize hsmall]
    exact List.mem_map_of_mem (mem_page hafter le_rfl (by rw [Nat.succ_mul (j + 1)]; omega))
  have := hcomplete.page_unique (by omega) (by omega) (by omega) (by omega) hfirst hsecond
  omega

/-- Two page numbers that are answered with the same rows. -/
theorem not_paged_of_same (hsize : 1 ≤ pageSize) {j k : ℤ} (hj : 1 ≤ j) (hjk : j < k)
    (hasked : asked k)
    (hsame : ∀ rank, pageRows db arguments pageSize rank j = pageRows db arguments pageSize rank k)
    {rank : ℤ → ℕ} (hrows : pageRows db arguments pageSize rank j ≠ []) :
    ¬ Paged db arguments pageSize asked := by
  intro h
  obtain ⟨shown, hshown, hcomplete⟩ := (paged_iff_pageRows hsize).1 h fun _ => rank
  obtain ⟨row, hrow⟩ := List.exists_mem_of_ne_nil _ hrows
  have hfirst : requestRow row ∈ shown j := by
    rw [hshown j hj]
    exact List.mem_map_of_mem hrow
  have hsecond : requestRow row ∈ shown k := by
    rw [hshown k (by omega), ← hsame]
    exact List.mem_map_of_mem hrow
  rcases le_or_gt k (lastPage db arguments pageSize) with hle | hgt
  · have := hcomplete.page_unique hj (by omega) (by omega) hle hfirst hsecond
    omega
  · rw [hcomplete.past k hgt hasked] at hsecond
    cases hsecond

theorem pageRows_ne_nil (hsize : 1 ≤ pageSize) (rank : ℤ → ℕ) {page : ℤ}
    (h : offsetOf page pageSize < (matching db arguments).length)
    (hne : matching db arguments ≠ []) : pageRows db arguments pageSize rank page ≠ [] := by
  have hread := one_le_throughDouble hsize
  have hlen := List.length_pos_iff.2 hne
  rw [← List.length_pos_iff, pageRows, List.length_take, List.length_drop, length_sortedRows]
  omega

/-- A page number whose offset wraps is answered with the first page. -/
theorem not_paged_of_overflow (hsize : 2 ≤ pageSize) (hne : matching db arguments ≠ []) :
    ¬ Paged db arguments pageSize (· ≤ Json.i64Max) := by
  have hread := two_le_throughDouble hsize
  obtain ⟨page, h1, hmax, hself, hwrap⟩ :=
    exists_overflow hread (throughDouble_le (show 0 ≤ pageSize by omega))
  have hfirst : offsetOf 1 pageSize = 0 := by
    rw [offsetOf, throughDouble_of_le (by omega) (by omega), Int.sub_self, Int.zero_mul]
    rfl
  have hwrapped : (offsetOf page pageSize).toNat = 0 := by
    rw [offsetOf, hself]
    omega
  refine not_paged_of_same (by omega) le_rfl h1 hmax (fun rank => ?_)
    (pageRows_ne_nil (by omega) (fun _ => 0) ?_ hne)
  · rw [pageRows, pageRows, hfirst, hwrapped, Int.toNat_zero]
  · have hlen := List.length_pos_iff.2 hne
    omega

/-- The page number `2 ^ 53 + 1` is read as the one before. -/
theorem few_of_paged (h : Paged db arguments 1 (· ≤ Json.i64Max)) :
    (matching db arguments).length < 2 ^ 53 := by
  by_contra hmany
  have hread : throughDouble (2 ^ 53 + 1) = throughDouble (2 ^ 53) := by decide
  have hoffset : offsetOf (2 ^ 53) 1 = 2 ^ 53 - 1 := by decide
  refine not_paged_of_same le_rfl (show (1 : ℤ) ≤ 2 ^ 53 by omega)
    (show (2 : ℤ) ^ 53 < 2 ^ 53 + 1 by omega) (by unfold Json.i64Max; omega) (fun rank => ?_)
    (pageRows_ne_nil le_rfl (fun _ => 0) (by rw [hoffset]; omega) ?_) h
  · rw [pageRows, pageRows, offsetOf, offsetOf, hread]
  · intro hnil
    rw [hnil] at hmany
    exact hmany (by decide)

theorem separated_one_iff :
    Separated db arguments 1 ↔ ((matching db arguments).map createdAt).Nodup := by
  have hperm : (creationTimes db arguments).Perm ((matching db arguments).map createdAt) :=
    List.perm_insertionSort _ _
  have hsorted : (creationTimes db arguments).Pairwise (· ≤ ·) := List.pairwise_insertionSort _ _
  rw [← hperm.nodup_iff]
  constructor
  · intro h
    refine (List.pairwise_iff_getElem.2 fun i j hi hj hij => ?_ :
      (creationTimes db arguments).Pairwise (· < ·)).imp ne_of_lt
    refine h (i + 1) _ ?_ _ ?_
    · exact List.mem_of_getElem? (i := i) (by
        rw [List.getElem?_take_of_lt (by simp), List.getElem?_eq_getElem hi])
    · refine List.mem_of_getElem? (i := j - (i + 1)) ?_
      rw [List.getElem?_drop, Int.toNat_one, Nat.mul_one, Nat.add_sub_cancel' hij,
        List.getElem?_eq_getElem hj]
  · intro h k x hx y hy
    have hlt : (creationTimes db arguments).Pairwise (· < ·) :=
      (hsorted.and h).imp fun hab => lt_of_le_of_ne hab.1 hab.2
    rw [← List.take_append_drop (k * (1 : ℤ).toNat) (creationTimes db arguments)] at hlt
    exact (List.pairwise_append.1 hlt).2.2 x hx y hy

/-- The pages behind the rows have offsets behind the rows. -/
theorem le_offsetOf (hsize : 1 ≤ pageSize) (hsmall : pageSize ≤ 2 ^ 53) {page : ℤ}
    (hlast : (lastPage db arguments pageSize : ℤ) < page) (hpage : InRange pageSize page) :
    ((matching db arguments).length : ℤ) ≤ offsetOf page pageSize := by
  have hlen : (matching db arguments).length ≤ lastPage db arguments pageSize * pageSize.toNat :=
    le_lastPage_mul hsize
  have hcast : ((matching db arguments).length : ℤ) ≤ lastPage db arguments pageSize * pageSize := by
    have h := Int.ofNat_le.2 hlen
    rwa [Nat.cast_mul, Int.toNat_of_nonneg (by omega)] at h
  rw [offsetOf_eq (by omega) hpage hsize hsmall]
  exact hcast.trans (Int.mul_le_mul_of_nonneg_right (by omega) (by omega))

/-- Also those of page numbers that a double rounds. -/
theorem le_offsetOf_one (hfew : (matching db arguments).length < 2 ^ 53) {page : ℤ}
    (hlast : (lastPage db arguments 1 : ℤ) < page) (hmax : page ≤ Json.i64Max) :
    ((matching db arguments).length : ℤ) ≤ offsetOf page 1 := by
  rcases le_total page (2 ^ 53) with hle | hge
  · exact le_offsetOf le_rfl (by omega) hlast ⟨hle, by omega⟩
  · have hread := le_throughDouble hge
    have hread' := throughDouble_le (show 0 ≤ page by omega)
    have hone : throughDouble 1 = 1 := throughDouble_of_le (by omega) (by omega)
    rw [offsetOf, hone, Int.mul_one, wrapI64_eq_self (by omega) (by omega)]
    omega

/-- Paging through the list, up to the largest page number, shows every request once and nothing
past the last page only when nothing matches or the pages have one request each, no two of one time.
For the page numbers whose offset is in range it is the ties across a boundary that matter. -/
theorem paged_iff (db : Store) (arguments : Map) {pageSize : ℤ} (hsize : 1 ≤ pageSize) :
    (Paged db arguments pageSize (· ≤ Json.i64Max) ↔ matching db arguments = [] ∨
      pageSize = 1 ∧ ((matching db arguments).map createdAt).Nodup ∧
        (matching db arguments).length < 2 ^ 53) ∧
    (pageSize ≤ 2 ^ 53 → (matching db arguments).length ≤ 2 ^ 53 →
      (Paged db arguments pageSize (InRange pageSize) ↔ Separated db arguments pageSize)) := by
  refine ⟨⟨fun h => ?_, ?_⟩, fun hsmall hfew =>
    ⟨separated_of_paged hsize hsmall hfew, fun hsep => ?_⟩⟩
  · by_cases hne : matching db arguments = []
    · exact Or.inl hne
    · have hone : pageSize = 1 := by
        by_contra hone
        exact not_paged_of_overflow (by omega) hne h
      subst hone
      have hfew := few_of_paged h
      exact Or.inr ⟨rfl, separated_one_iff.1 (separated_of_paged hsize (by omega) hfew.le h), hfew⟩
  · rintro (hnil | ⟨rfl, hnodup, hfew⟩)
    · refine (paged_iff_pageRows hsize).2 fun rank => ⟨fun _ => [], fun page _ => ?_, ?_⟩
      · have hrows : sortedRows db arguments (rank page) = [] := by
          rw [sortedRows, hnil]
          rfl
        rw [pageRows, hrows, List.drop_nil, List.take_nil, List.map_nil]
      · have hlast : lastPage db arguments pageSize = 0 := by
          rw [lastPage, hnil, Nat.div_eq_zero_iff]
          simp only [List.length_nil]
          omega
        refine ⟨?_, fun page h1 hlt => ?_, fun _ _ _ => rfl⟩
        · rw [hlast, hnil]
          exact List.Perm.refl _
        · rw [hlast] at hlt
          omega
    · refine paged_of_separated hsize (by omega) hfew.le (separated_one_iff.2 hnodup)
        fun page hlast hmax => le_offsetOf_one hfew hlast hmax
  · exact paged_of_separated hsize hsmall hfew hsep fun page hlast hpage =>
      le_offsetOf hsize hsmall hlast hpage

end Main

/-! ### Two requests -/

/-- A request for a broker, made at a time. -/
def requestAt (createdAt brokerId : String) : RequestColumns where
  brokerId := brokerId
  channel := "email"
  campaignId := "spring"
  createdAt := createdAt
  jurisdiction := "GDPR"
  templateId := ""
  identitySnapshotHash := ""

/-- The store with a request at noon and a later one. -/
def requestsAt (later : String) : Store :=
  { Store.fresh with
    requests := (Table.empty.insert (requestAt "2026-05-01 12:00:00" "acme")).insert
      (requestAt later "zenith") }

/-- The store with two requests of two days. -/
def twoDays : Store := requestsAt "2026-05-02 09:30:00"

/-- The store with two requests of one second. -/
def twoRequests : Store := requestsAt "2026-05-01 12:00:00"

theorem paged_twoDays : (matching twoDays []).length = 2 ∧
    Paged twoDays [] 1 (· ≤ Json.i64Max) :=
  ⟨by decide, (paged_iff twoDays [] le_rfl).1.2 (Or.inr ⟨rfl, by decide, by decide⟩)⟩

/-- With one request on each page, one of two requests of one second may be shown on both pages and
the other on none; with two on each page, the largest page numbers show the first page again. -/
theorem not_paged_twoRequests : ¬ Paged twoRequests [] 1 (· ≤ Json.i64Max) ∧
    ¬ Paged twoRequests [] 2 (· ≤ Json.i64Max) := by
  refine ⟨fun h => ?_, not_paged_of_overflow le_rfl (by decide)⟩
  have hnodup := separated_one_iff.1 (separated_of_paged le_rfl (by omega) (few_of_paged h).le h)
  exact absurd hnodup (by decide)

end EraseMe.Mcp
