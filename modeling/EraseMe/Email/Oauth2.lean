import Mathlib.Data.Finmap
import Mathlib.Tactic

/-!
# `email::oauth2`: authorization states

States are one-time values in a file.  A file is what `serde_json` reads from it, and reads back
what it wrote.  File operations do not fail; the clock of each call is its own, so that it may go
back.

A validation removes the record from the list it has read, but an expired record is an error, and
an error keeps `update` from writing the list.  So a state is consumed unless it has expired
(`oneTime_iff`).
-/

namespace EraseMe.Email.Oauth2

/-- A login that was begun. -/
structure StateRecord where
  provider : String
  expiresAt : Int64
  deriving DecidableEq, Repr

/-- The records of a file, by their states. -/
abbrev Records := Finmap fun _ : String => StateRecord

/-- What a state file is for its reader. -/
inductive StateFile
  | missing
  | empty
  | invalid
  | list (records : Records)
  deriving DecidableEq

/-- The errors of the store. -/
inductive OAuthError
  | state (message : String)
  deriving DecidableEq, Repr

/-- The records in a file; a new one has none. -/
def StateFile.read : StateFile → Except OAuthError Records
  | .missing => .ok ∅
  | .empty => .ok ∅
  | .invalid => .error (.state "invalid state file")
  | .list records => .ok records

/-- The file and its times. -/
structure OAuthStateStore where
  path : String
  ttlSeconds : Int64

/-- Five minutes. -/
def defaultStateTtlSeconds : Int64 := 300

namespace OAuthStateStore

variable (self : OAuthStateStore)

/-- How long a state lives. -/
def ttl : Int64 := if 0 < self.ttlSeconds then self.ttlSeconds else defaultStateTtlSeconds

/-- The records are read, changed and written; an error of the change is returned before the
writing. -/
def update (file : StateFile) (apply : Records → Except OAuthError Unit × Records) :
    Except OAuthError Unit × StateFile :=
  if self.path = "" then (.error (.state "state path is empty"), file)
  else
    match file.read with
    | .error error => (.error error, file)
    | .ok records =>
        match apply records with
        | (.error error, _) => (.error error, file)
        | (.ok (), records) => (.ok (), .list records)

/-- Note a state. -/
def store (file : StateFile) (now : Int64) (state provider : String) :
    Except OAuthError Unit × StateFile :=
  if state = "" ∨ provider = "" then (.error (.state "state and provider are required"), file)
  else
    self.update file fun records =>
      (.ok (), records.insert state { provider, expiresAt := now + self.ttl })

/-- Take a state out. -/
def validate (file : StateFile) (now : Int64) (state : String) :
    Except OAuthError Unit × StateFile :=
  if state = "" then (.error (.state "missing state (possible CSRF attack)"), file)
  else
    self.update file fun records =>
      match records.lookup state with
      | none => (.error (.state "state mismatch (possible CSRF attack)"), records)
      | some record =>
          if record.expiresAt < now then
            (.error (.state "state expired (possible CSRF attack)"), records.erase state)
          else (.ok (), records.erase state)

end OAuthStateStore

/-! ### Runs -/

/-- What the store is asked. -/
inductive Call
  | store (state provider : String)
  | validate (state : String)
  deriving DecidableEq, Repr

/-- A call at a time. -/
def OAuthStateStore.call (self : OAuthStateStore) (file : StateFile) :
    Int64 × Call → Except OAuthError Unit × StateFile
  | (now, .store state provider) => self.store file now state provider
  | (now, .validate state) => self.validate file now state

/-- The file after some calls. -/
def OAuthStateStore.run (self : OAuthStateStore) (file : StateFile) (calls : List (Int64 × Call)) :
    StateFile :=
  calls.foldl (fun file call => (self.call file call).2) file

/-- The record of a state in a file. -/
def StateFile.record (file : StateFile) (state : String) : Option StateRecord :=
  match file with
  | .list records => records.lookup state
  | _ => none

/-- The record of the state is gone and the others are as they were. -/
def Consumed (state : String) (before after : StateFile) : Prop :=
  after.record state = none ∧ ∀ other, other ≠ state → after.record other = before.record other

/-- A state is consumed by its first validation, throughout a run. -/
structure OneTime (stored : OAuthStateStore) (file : StateFile) (calls : List (Int64 × Call)) :
    Prop where
  consumed : ∀ before now state after, calls = before ++ (now, .validate state) :: after →
    Consumed state (stored.run file before) (stored.validate (stored.run file before) now state).2
  /-- Between two validations that return there is another `store`. -/
  once : ∀ before now state middle now' after,
    calls = before ++ (now, .validate state) :: (middle ++ (now', .validate state) :: after) →
    (stored.validate (stored.run file before) now state).1 = .ok () →
    (stored.validate (stored.run file (before ++ (now, .validate state) :: middle)) now' state).1 =
      .ok () → ∃ time provider, (time, Call.store state provider) ∈ middle
  /-- So there is after one that found its state expired. -/
  refused : ∀ before now state middle now' after,
    calls = before ++ (now, .validate state) :: (middle ++ (now', .validate state) :: after) →
    (∃ record, (stored.run file before).record state = some record ∧ record.expiresAt < now) →
    (stored.validate (stored.run file (before ++ (now, .validate state) :: middle)) now' state).1 =
      .ok () → ∃ time provider, (time, Call.store state provider) ∈ middle

/-- A validation finds a record that it will not consume. -/
def Leaves (self : OAuthStateStore) (file : StateFile) (now : Int64) (state : String) : Prop :=
  ∃ record, file.record state = some record ∧
    (record.expiresAt < now ∨ state = "" ∨ self.path = "")

section OneTime

variable {self : OAuthStateStore} {file : StateFile} {now : Int64} {state : String}

theorem lookup_of_read {records : Records} (h : file.read = .ok records) (state : String) :
    records.lookup state = file.record state := by
  cases file with
  | missing =>
    obtain rfl := Except.ok.inj h
    rfl
  | empty =>
    obtain rfl := Except.ok.inj h
    rfl
  | invalid => cases h
  | list records' =>
    obtain rfl := Except.ok.inj h
    rfl

/-- A file with a record can be read. -/
theorem read_of_record {record : StateRecord} (h : file.record state = some record) :
    ∃ records, file.read = .ok records := by
  cases file with
  | list records => exact ⟨records, rfl⟩
  | _ => cases h

/-- An update that fails leaves the file as it was. -/
theorem update_error {apply : Records → Except OAuthError Unit × Records}
    (h : ∀ records, file.read = .ok records →
      self.path = "" ∨ ∃ error, (apply records).1 = .error error) :
    ∃ error, self.update file apply = (.error error, file) := by
  unfold OAuthStateStore.update
  by_cases hpath : self.path = ""
  · exact ⟨_, if_pos hpath⟩
  · rw [if_neg hpath]
    cases hread : file.read with
    | error error => exact ⟨error, rfl⟩
    | ok records =>
      obtain ⟨error, herror⟩ := (h records hread).resolve_left hpath
      refine ⟨error, ?_⟩
      cases happly : apply records with
      | mk result records' =>
        rw [happly] at herror
        obtain rfl : result = .error error := herror
        simp only [happly]

/-- An update that succeeds writes what it made of the records. -/
theorem update_ok {apply : Records → Except OAuthError Unit × Records} {records records' : Records}
    (hpath : self.path ≠ "") (hread : file.read = .ok records)
    (h : apply records = (.ok (), records')) :
    self.update file apply = (.ok (), .list records') := by
  simp only [OAuthStateStore.update, if_neg hpath, hread, h]

/-- A validation without a record, or with one that it leaves, changes nothing. -/
theorem validate_refused (h : ∀ record, file.record state = some record →
    Leaves self file now state) :
    ∃ error, self.validate file now state = (.error error, file) := by
  unfold OAuthStateStore.validate
  by_cases hstate : state = ""
  · exact ⟨_, if_pos hstate⟩
  · rw [if_neg hstate]
    refine update_error fun records hread => ?_
    cases hrecord : file.record state with
    | none =>
      right
      rw [lookup_of_read hread, hrecord]
      exact ⟨_, rfl⟩
    | some record =>
      obtain ⟨record', hrecord', hleft⟩ := h record hrecord
      obtain rfl := Option.some.inj (hrecord.symm.trans hrecord')
      rcases hleft with hexpired | hempty | hpath
      · right
        rw [lookup_of_read hread, hrecord]
        exact ⟨_, congrArg Prod.fst (if_pos hexpired)⟩
      · exact absurd hempty hstate
      · exact .inl hpath

/-- A validation that finds a record and does not leave it returns, and consumes it. -/
theorem validate_consumes {record : StateRecord} (h : file.record state = some record)
    (hleaves : ¬ Leaves self file now state) :
    (self.validate file now state).1 = .ok () ∧
      Consumed state file (self.validate file now state).2 := by
  have hexpired : ¬ record.expiresAt < now := fun hlt => hleaves ⟨record, h, .inl hlt⟩
  have hstate : state ≠ "" := fun hempty => hleaves ⟨record, h, .inr (.inl hempty)⟩
  have hpath : self.path ≠ "" := fun hempty => hleaves ⟨record, h, .inr (.inr hempty)⟩
  obtain ⟨records, hread⟩ := read_of_record h
  have hvalidate : self.validate file now state = (.ok (), .list (records.erase state)) := by
    rw [OAuthStateStore.validate, if_neg hstate]
    refine update_ok hpath hread ?_
    rw [lookup_of_read hread, h]
    exact if_neg hexpired
  rw [hvalidate]
  refine ⟨rfl, Finmap.lookup_erase state records, fun other hother => ?_⟩
  rw [← lookup_of_read hread]
  exact Finmap.lookup_erase_ne hother

/-- One validation consumes its state exactly when it leaves no record. -/
theorem consumed_iff :
    Consumed state file (self.validate file now state).2 ↔ ¬ Leaves self file now state := by
  constructor
  · intro hconsumed hleaves
    obtain ⟨error, herror⟩ := validate_refused fun _ _ => hleaves
    obtain ⟨record, hrecord, -⟩ := hleaves
    have hgone := hconsumed.1
    rw [herror, hrecord] at hgone
    cases hgone
  · intro hleaves
    cases hrecord : file.record state with
    | some record => exact (validate_consumes hrecord hleaves).2
    | none =>
      have hrefused : ∀ record, file.record state = some record → Leaves self file now state := by
        intro record h
        rw [hrecord] at h
        cases h
      obtain ⟨error, herror⟩ := validate_refused hrefused
      rw [herror]
      exact ⟨hrecord, fun _ _ => rfl⟩

/-- Without a record a validation does not return. -/
theorem record_of_validate (h : (self.validate file now state).1 = .ok ()) :
    file.record state ≠ none ∧ ¬ Leaves self file now state := by
  refine ⟨fun hnone => ?_, fun hleaves => ?_⟩
  · have hrefused : ∀ record, file.record state = some record → Leaves self file now state := by
      intro record hrecord
      rw [hnone] at hrecord
      cases hrecord
    obtain ⟨error, herror⟩ := validate_refused hrefused
    rw [herror] at h
    cases h
  · obtain ⟨error, herror⟩ := validate_refused fun _ _ => hleaves
    rw [herror] at h
    cases h

/-- A record appears only by a `store` of its state. -/
theorem record_call (call : Int64 × Call) (hnone : file.record state = none)
    (hstore : ∀ provider, call.2 ≠ .store state provider) :
    (self.call file call).2.record state = none := by
  obtain ⟨now, call⟩ := call
  cases call with
  | validate other =>
    show (self.validate file now other).2.record state = none
    by_cases hleaves : Leaves self file now other
    · obtain ⟨error, herror⟩ := validate_refused fun _ _ => hleaves
      rw [herror]
      exact hnone
    · have hconsumed := consumed_iff.mpr hleaves
      by_cases hother : state = other
      · rw [hother]
        exact hconsumed.1
      · rw [hconsumed.2 state hother]
        exact hnone
  | store other provider =>
    have hother : state ≠ other := by
      rintro rfl
      exact hstore provider rfl
    show (self.store file now other provider).2.record state = none
    unfold OAuthStateStore.store OAuthStateStore.update
    split_ifs
    · exact hnone
    · exact hnone
    · cases hread : file.read with
      | error error => exact hnone
      | ok records =>
        show (records.insert other _).lookup state = none
        rw [Finmap.lookup_insert_of_ne _ hother, lookup_of_read hread]
        exact hnone

/-- The same for any number of calls. -/
theorem record_run (calls : List (Int64 × Call)) :
    ∀ file : StateFile, file.record state = none →
      (∀ now provider, (now, Call.store state provider) ∉ calls) →
        (self.run file calls).record state = none := by
  induction calls with
  | nil => exact fun _ h _ => h
  | cons call rest ih =>
    intro file hnone hstore
    refine ih _ (record_call call hnone fun provider heq => ?_) fun now provider hmem =>
      hstore now provider (List.mem_cons_of_mem _ hmem)
    refine hstore call.1 provider ?_
    rw [← heq]
    exact List.mem_cons_self

theorem run_append (file : StateFile) (before after : List (Int64 × Call)) :
    self.run file (before ++ after) = self.run (self.run file before) after :=
  List.foldl_append

/-- Authorization states are one-time in a run exactly when no validation of the run finds its
state expired, or is asked for the empty state while the file has a record of it. -/
theorem oneTime_iff (self : OAuthStateStore) (file : StateFile) (calls : List (Int64 × Call)) :
    OneTime self file calls ↔
      ∀ before now state after, calls = before ++ (now, .validate state) :: after →
        ¬ Leaves self (self.run file before) now state := by
  constructor
  · intro h before now state after hcalls
    exact consumed_iff.mp (h.consumed before now state after hcalls)
  · intro h
    refine ⟨fun before now state after hcalls => consumed_iff.mpr (h before now state after hcalls),
      ?_, ?_⟩
    · intro before now state middle now' after hcalls _ hok
      by_contra hstore
      push Not at hstore
      have hgone : (self.run file (before ++ [(now, .validate state)])).record state = none := by
        rw [run_append]
        exact (consumed_iff.mpr (h before now state _ hcalls)).1
      have hlater : (self.run (self.run file (before ++ [(now, .validate state)])) middle).record
          state = none := record_run middle _ hgone hstore
      rw [← run_append, List.append_assoc, List.singleton_append] at hlater
      exact (record_of_validate hok).1 hlater
    · rintro before now state middle now' after hcalls ⟨record, hrecord, hexpired⟩ -
      exact absurd ⟨record, hrecord, .inl hexpired⟩ (h before now state _ hcalls)

/-- An expired state stays in the file, and is accepted when the clock goes back. -/
theorem expired_state_stays :
    ¬ OneTime ⟨"oauth2_state.json", 300⟩ .missing
      [(0, .store "state-1" "gmail"), (301, .validate "state-1"), (300, .validate "state-1")] := by
  intro h
  have hconsumed := h.consumed [(0, .store "state-1" "gmail")] 301 "state-1"
    [(300, .validate "state-1")] rfl
  have hgone := hconsumed.1
  revert hgone
  decide

end OneTime

end EraseMe.Email.Oauth2
