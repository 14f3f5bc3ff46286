import EraseMe.Email.Oauth2
import EraseMe.Library.SharedCell

/-!
# One state file, several processes

The lock of an `OAuthStateStore` excludes only calls of the same instance.  Instances on one path
share the file as the clients of `SharedCell` do: a call reads the file, changes the records,
writes them to a temporary file and renames it.  A rename that replaces another file than the one
read loses what was written in between, so that a stored state is gone or a consumed one is back
(`states_lost_and_revived`).  Where no rename does, states are one-time (`oneTime_of_fresh`).
-/

namespace EraseMe.Email.Oauth2

open SharedCell

variable {ι : Type}

/-- The instances on a path, each with its own lifetime of a state. -/
def onPath (path : String) (ttlSeconds : ι → Int64) (i : ι) : OAuthStateStore :=
  ⟨path, ttlSeconds i⟩

/-- What a call of an instance makes of the file it has read: its result, and the file it writes
unless it fails. -/
def callOn (instances : ι → OAuthStateStore) (i : ι) (call : Int64 × Call) (file : StateFile) :
    Except OAuthError Unit × Option StateFile :=
  match (instances i).call file call with
  | (.ok (), file) => (.ok (), some file)
  | (.error e, _) => (.error e, none)

/-- The file, the calls under way and the calls that returned. -/
abbrev Shared (ι : Type) := State ι (Int64 × Call) StateFile (Except OAuthError Unit)

/-- A call that returned. -/
abbrev Returned (ι : Type) := ι × (Int64 × Call) × Except OAuthError Unit

/-- A call of `store` for a state that returned without an error. -/
def Stores (state : String) : Returned ι → Bool
  | (_, (_, .store other _), .ok ()) => other = state
  | _ => false

/-- A call of `validate` that accepted a state. -/
def Accepts (state : String) : Returned ι → Bool
  | (_, (_, .validate other), .ok ()) => other = state
  | _ => false

/-- States are one-time from a file on: each one stored is accepted at most once, and it is in the
file until then. -/
structure OneTimeFrom (file : StateFile) (s : Shared ι) : Prop where
  once : ∀ state, s.returned.countP (Accepts state) ≤
    s.returned.countP (Stores state) + if file.record state = none then 0 else 1
  kept : ∀ state before stored after, s.returned = before ++ stored :: after →
    Stores state stored = true → (∀ call ∈ after, Accepts state call = false) →
    s.value.record state ≠ none

/-! ### What one call does to a record -/

section Record

variable {instances : ι → OAuthStateStore} {i : ι} {time : Int64} {file next : StateFile}
  {result : Except OAuthError Unit}

theorem callOn_eq_some {call : Int64 × Call}
    (h : callOn instances i call file = (result, some next)) :
    (instances i).call file call = (.ok (), next) ∧ result = .ok () := by
  unfold callOn at h
  split at h
  · next file' hcall =>
    cases h
    exact ⟨hcall, rfl⟩
  · cases h

theorem callOn_eq_none {call : Int64 × Call} (h : callOn instances i call file = (result, none)) :
    ∃ e, result = .error e := by
  unfold callOn at h
  split at h
  · cases h
  · cases h
    exact ⟨_, rfl⟩

theorem record_store {self : OAuthStateStore} {state provider : String}
    (h : self.store file time state provider = (.ok (), next)) (other : String) :
    next.record other = if other = state then some ⟨provider, time + self.ttl⟩
      else file.record other := by
  unfold OAuthStateStore.store at h
  split_ifs at h
  · cases h
  · unfold OAuthStateStore.update at h
    split_ifs at h
    · cases h
    · cases hread : file.read with
      | error e =>
        rw [hread] at h
        cases h
      | ok records =>
        rw [hread] at h
        cases h
        rw [← lookup_of_read hread]
        show (records.insert state _).lookup other = _
        by_cases hother : other = state
        · rw [if_pos hother, hother, Finmap.lookup_insert]
        · rw [if_neg hother, Finmap.lookup_insert_of_ne _ hother]

theorem record_validate {self : OAuthStateStore} {state : String}
    (h : self.validate file time state = (.ok (), next)) (other : String) :
    file.record state ≠ none ∧
      next.record other = if other = state then none else file.record other := by
  have hok : (self.validate file time state).1 = .ok () := by rw [h]
  obtain ⟨hsome, hleaves⟩ := record_of_validate hok
  have hconsumed := consumed_iff.2 hleaves
  rw [h] at hconsumed
  refine ⟨hsome, ?_⟩
  by_cases hother : other = state
  · rw [if_pos hother, hother]
    exact hconsumed.1
  · rw [if_neg hother]
    exact hconsumed.2 other hother

/-- After a call that wrote: a stored state has a record, an accepted one had one and has none,
and every other state has the record it had. -/
theorem record_callOn {call : Int64 × Call} (state : String)
    (h : callOn instances i call file = (result, some next)) :
    (Stores state (i, call, result) = true → next.record state ≠ none) ∧
    (Accepts state (i, call, result) = true →
      file.record state ≠ none ∧ next.record state = none) ∧
    (Stores state (i, call, result) = false → Accepts state (i, call, result) = false →
      next.record state = file.record state) := by
  obtain ⟨hcall, rfl⟩ := callOn_eq_some h
  obtain ⟨time, call⟩ := call
  cases call with
  | store other provider =>
    have hrecord := record_store hcall state
    by_cases hother : other = state
    · subst hother
      rw [if_pos rfl] at hrecord
      simp [Stores, Accepts, hrecord]
    · rw [if_neg (Ne.symm hother)] at hrecord
      simp [Stores, Accepts, hother, hrecord]
  | validate other =>
    obtain ⟨hsome, hrecord⟩ := record_validate hcall state
    by_cases hother : other = state
    · subst hother
      rw [if_pos rfl] at hrecord
      simp [Stores, Accepts, hsome, hrecord]
    · rw [if_neg (Ne.symm hother)] at hrecord
      simp [Stores, Accepts, hother, hrecord]

end Record

/-! ### Runs -/

/-- What is one-time about one state, in terms of the file and the calls that returned. -/
structure Balanced (file : StateFile) (state : String) (value : StateFile)
    (returned : List (Returned ι)) : Prop where
  once : returned.countP (Accepts state) + (if value.record state = none then 0 else 1) ≤
    returned.countP (Stores state) + if file.record state = none then 0 else 1
  kept : ∀ before stored after, returned = before ++ stored :: after →
    Stores state stored = true → (∀ call ∈ after, Accepts state call = false) →
    value.record state ≠ none

theorem accepts_of_stores {state : String} {call : Returned ι} (h : Stores state call = true) :
    Accepts state call = false := by
  obtain ⟨i, ⟨time, call⟩, result⟩ := call
  cases call with
  | store other provider => rfl
  | validate other => cases h

/-- A list that ends with an element, split at another element or at that one. -/
theorem append_singleton_eq_cases {α : Type} {l before after : List α} {a b : α}
    (h : l ++ [a] = before ++ b :: after) :
    (after = [] ∧ b = a) ∨ ∃ rest, after = rest ++ [a] ∧ l = before ++ b :: rest := by
  rcases List.eq_nil_or_concat after with rfl | ⟨rest, c, rfl⟩
  · exact Or.inl ⟨rfl, (List.append_singleton_inj.1 h).2.symm⟩
  · rw [List.concat_eq_append, ← List.cons_append, ← List.append_assoc] at h
    obtain ⟨hl, rfl⟩ := List.append_singleton_inj.1 h
    exact Or.inr ⟨rest, List.concat_eq_append, hl⟩

theorem keeps_balanced (instances : ι → OAuthStateStore) (file : StateFile) (state : String) :
    Keeps (callOn instances) (Balanced file state) where
  answer i call value result current returned happly h := by
    obtain ⟨e, rfl⟩ := callOn_eq_none happly
    obtain ⟨time, call⟩ := call
    have hneither : Stores state (i, (time, call), Except.error e) = false ∧
        Accepts state (i, (time, call), Except.error e) = false := by
      cases call with
      | store other provider => exact ⟨rfl, rfl⟩
      | validate other => exact ⟨rfl, rfl⟩
    constructor
    · simpa [List.countP_append, hneither.1, hneither.2] using h.once
    · intro before stored after heq hstores hafter
      rcases append_singleton_eq_cases heq with ⟨-, rfl⟩ | ⟨rest, rfl, hreturned⟩
      · rw [hneither.1] at hstores
        cases hstores
      · exact h.kept before stored rest hreturned hstores fun call hcall =>
          hafter call (List.mem_append_left _ hcall)
  write i call value result next returned happly h := by
    obtain ⟨hstored, haccepted, hother⟩ := record_callOn state happly
    have honce := h.once
    constructor
    · rw [List.countP_append, List.countP_append, List.countP_singleton, List.countP_singleton]
      cases hs : Stores state (i, call, result) with
      | true =>
        have ha := accepts_of_stores hs
        have hle : (if next.record state = none then 0 else 1) ≤ 1 := by split_ifs <;> omega
        simp only [ha, Bool.false_eq_true, if_false, if_true]
        omega
      | false =>
        cases ha : Accepts state (i, call, result) with
        | true =>
          -- the record that was there is consumed
          obtain ⟨hbefore, hafter⟩ := haccepted ha
          rw [if_neg hbefore] at honce
          rw [if_pos hafter]
          simp only [Bool.false_eq_true, if_false, if_true]
          omega
        | false =>
          rw [hother hs ha]
          simp only [Bool.false_eq_true, if_false]
          omega
    · intro before stored after heq hstores hafter
      rcases append_singleton_eq_cases heq with ⟨-, rfl⟩ | ⟨rest, rfl, hreturned⟩
      · exact hstored hstores
      · have hkept := h.kept before stored rest hreturned hstores fun call hcall =>
          hafter call (List.mem_append_left _ hcall)
        have ha := hafter (i, call, result) (by simp)
        cases hs : Stores state (i, call, result) with
        | true => exact hstored hs
        | false =>
          rw [hother hs ha]
          exact hkept

/-- However the steps of any number of instances on one path interleave, with calls failing at any
step: if every rename replaces the file that its call has read, states are one-time in every state
reached. -/
theorem oneTime_of_fresh [DecidableEq ι] (path : String) (ttlSeconds : ι → Int64)
    (file : StateFile) {s : Shared ι}
    (hrun : Run.Reaches (FreshStep (callOn (onPath path ttlSeconds))) (.start file) s) :
    OneTimeFrom file s := by
  have hbalanced : ∀ state, Balanced file state s.value s.returned := by
    intro state
    refine invariant_of_fresh _ (keeps_balanced (onPath path ttlSeconds) file state) ?_ hrun
    refine ⟨?_, ?_⟩
    · simp
    · intro before stored after heq
      exact absurd heq (by simp)
  constructor
  · intro state
    exact le_trans (Nat.le_add_right _ _) (hbalanced state).once
  · exact fun state => (hbalanced state).kept

/-- The steps of a call that is not interrupted. -/
def alone (i : Bool) (time : Int64) (call : Call) : List (Bool × Action (Int64 × Call)) :=
  [(i, .call (time, call)), (i, .read), (i, .compute), (i, .replace)]

/-- The steps of two calls that read the same file. -/
def overlapping (first second : Int64 × Call) : List (Bool × Action (Int64 × Call)) :=
  [(false, .call first), (false, .read), (false, .compute), (true, .call second), (true, .read),
    (true, .compute), (false, .replace), (true, .replace)]

/-- Two processes, one after the other. -/
theorem oneTime_alone : ∃ s,
    freshRun (callOn (onPath "oauth2_state.json" fun _ : Bool => 300)) (.start .missing)
      (alone false 0 (.store "state-1" "gmail") ++ alone true 1 (.validate "state-1")) = some s ∧
    OneTimeFrom .missing s := by
  obtain ⟨s, hs⟩ : ∃ s, freshRun (callOn (onPath "oauth2_state.json" fun _ : Bool => 300))
      (.start .missing) (alone false 0 (.store "state-1" "gmail") ++
        alone true 1 (.validate "state-1")) = some s := ⟨_, rfl⟩
  exact ⟨s, hs, oneTime_of_fresh _ _ _ (reaches_of_freshRun _ hs)⟩

/-- Two processes that store at the same time lose one of the states; two that validate at the
same time both accept the one state. -/
theorem states_lost_and_revived :
    (∃ s, run (callOn (onPath "oauth2_state.json" fun _ : Bool => 300)) (.start .missing)
        (overlapping (0, .store "state-1" "gmail") (0, .store "state-2" "gmail")) = some s ∧
      ¬ OneTimeFrom .missing s) ∧
    ∃ s, run (callOn (onPath "oauth2_state.json" fun _ : Bool => 300)) (.start .missing)
        (alone false 0 (.store "state-1" "gmail") ++
          overlapping (1, .validate "state-1") (1, .validate "state-1")) = some s ∧
      ¬ OneTimeFrom .missing s := by
  constructor
  · refine ⟨_, rfl, fun h => ?_⟩
    have hkept := h.kept "state-1" [] (false, (0, .store "state-1" "gmail"), .ok ())
      [(true, (0, .store "state-2" "gmail"), .ok ())] rfl rfl (by decide)
    revert hkept
    decide
  · refine ⟨_, rfl, fun h => ?_⟩
    have honce := h.once "state-1"
    revert honce
    decide

end EraseMe.Email.Oauth2
