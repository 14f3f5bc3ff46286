import EraseMe.Library.Statements
import EraseMe.Storage.Append

/-!
# The statements of an append

Appending an event and projecting it takes five statements: `BEGIN`, the event, the log, the state
and `COMMIT`.  It succeeds when none of them fails and the event may be appended.
-/

namespace EraseMe.Storage

open Chrono Json Sqlite

variable {τ : Type} (arch : TargetArch) (requestId : ℤ) {eventType : EventType} (payload : Map)
  {source : Source} (occurredAt : DateTime)

theorem takes_appendEventTx :
    (appendEventTx requestId eventType payload source occurredAt :
      Db Store τ ProjectionError ℤ).Takes 1 := by
  unfold appendEventTx
  cases validateAppend eventType source with
  | error e =>
    intro c a c' h
    cases h
  | ok u => exact (Db.takes_statement _).mapError _

theorem takes_appendAndProject :
    (appendAndProject arch requestId eventType payload source occurredAt :
      Db Store τ ProjectionError (ℤ × ProjectionState)).Takes 5 := by
  have hstate : (upsertStateTx arch requestId : Db Store τ ProjectionError ProjectionState).Takes
      (1 + (1 + 0)) :=
    ((Db.takes_statement _).mapError _).bind fun _ =>
      ((Db.takes_statement _).mapError _).bind fun _ => Db.takes_pure _
  exact Db.Takes.transaction ((takes_appendEventTx requestId payload occurredAt).bind fun _ =>
    hstate.bind fun _ => Db.takes_pure _)

/-- Without a failure among its five statements the append to an existing request succeeds. -/
theorem succeeds_appendAndProject (ht : ∀ v, eventType ≠ .unknown v)
    (hs : ∀ v, source ≠ .unknown v) :
    (appendAndProject arch requestId eventType payload source occurredAt :
      Db Store τ ProjectionError (ℤ × ProjectionState)).Succeeds
        (fun db => (db.requests.find requestId).isSome) 5 fun _ _ => True := by
  have hevent : (appendEventTx requestId eventType payload source occurredAt :
      Db Store τ ProjectionError ℤ).Succeeds (fun db => (db.requests.find requestId).isSome) 1
        fun _ db => (db.requests.find requestId).isSome := by
    unfold appendEventTx
    rw [validateAppend_eq_ok.2 ⟨ht, hs⟩]
    refine (Db.succeeds_statement fun r db hdb => ?_).mapError _
    obtain ⟨columns, hcolumns⟩ := Option.isSome_iff_exists.1 hdb
    rw [hcolumns]
    exact ⟨_, _, rfl, hdb⟩
  have hload : (loadEvents requestId : Db Store τ ProjectionError (List EventRecord)).Succeeds
      (fun db => (db.requests.find requestId).isSome) 1
        fun _ db => (db.requests.find requestId).isSome := by
    refine (Db.succeeds_statement fun r db hdb => ?_).mapError _
    exact ⟨_, _, rfl, hdb⟩
  have hstate : (upsertStateTx arch requestId : Db Store τ ProjectionError ProjectionState).Succeeds
      (fun db => (db.requests.find requestId).isSome) (1 + (1 + 0)) fun _ _ => True := by
    refine hload.bind fun events => ?_
    refine Db.Succeeds.bind (R := fun _ _ => True)
      ((Db.succeeds_statement fun r db hdb => ?_).mapError _) fun _ =>
        Db.succeeds_pure _ fun _ h => h
    obtain ⟨columns, hcolumns⟩ := Option.isSome_iff_exists.1 hdb
    rw [foldEvents_requestId, hcolumns]
    exact ⟨_, _, rfl, trivial⟩
  exact Db.Succeeds.transaction
    (hevent.bind fun _ => hstate.bind fun _ => Db.succeeds_pure _ fun _ h => h)

end EraseMe.Storage
