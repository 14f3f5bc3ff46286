import EraseMe.Library.Run
import Mathlib.Tactic

/-!
# `identity::gate`: a consent token is used once

Any number of processes run `verify_and_consume` on one token.  A call verifies the record, locks
its inode, and removes it under the lock; each of the three parts looks the file up again, and a
lookup renames a record that still has the legacy name.  A state says where the record is, who
holds the lock of its inode, and how far each process is; a step is one access to the file system.

A removal takes two steps.  It answers that it removed the file when it did, and it may do so as
well when another removal took the file away between the two (`Moves.overlapped`).

* `ok_unique`: no two calls return, whatever other processes do to the record;
* `exists_ok`: without them, and before the token expires, one of the calls returns.
-/

namespace EraseMe.Identity

/-- On-disk representation; `token` is missing in the first version. -/
structure ConsentRecord where
  command : String
  issuedAt : ℤ
  expiresAt : ℤ
  token : Option String
  deriving DecidableEq, Repr

/-- The arguments of the calls, the record, and whether the hashed name is the legacy name. -/
structure Call where
  command : String
  token : String
  record : ConsentRecord
  coincide : Bool := false

/-- Where the record is: under its hashed name, its legacy name, another one, or removed. -/
inductive Place
  | hashed
  | legacy
  | elsewhere
  | gone
  deriving DecidableEq, Repr

/-- The three lookups of a call. -/
inductive Stage
  | verify
  | lock
  | revoke
  deriving DecidableEq, Repr

/-- How a lookup ends. -/
inductive Outcome
  | ok
  | notFound
  | expired
  | commandMismatch
  | io
  deriving DecidableEq, Repr

/-- The next access of a process. -/
inductive PC
  | hashedCheck (stage : Stage)
  | legacyCheck (stage : Stage)
  | rename (stage : Stage)
  | destinationCheck (stage : Stage)
  | read
  | clockCheck
  | expire
  | openFile
  | lockFile
  | remove
  | removing (present : Bool)
  | done (outcome : Outcome)
  deriving DecidableEq, Repr

/-- What follows a lookup that found the file. -/
def Stage.found : Stage → PC
  | verify => .read
  | lock => .openFile
  | revoke => .remove

/-- The legacy name leads to the record; a token with a slash has no legacy name in the
directory. -/
def Call.LegacyIsFile (c : Call) (place : Place) : Prop :=
  '/' ∉ c.token.toList ∧ (place = .legacy ∨ c.coincide = true ∧ place = .hashed)

/-- The checks on a record that was read. -/
def Call.afterRead (c : Call) : PC :=
  if c.record.token ≠ none ∧ c.record.token ≠ some c.token then .done .notFound
  else if c.record.command ≠ c.command then .done .commandMismatch
  else .clockCheck

/-- Where a call starts. -/
def Call.start (c : Call) : PC := if c.token = "" then .done .notFound else .hashedCheck .verify

/-- One access of a process that needs no lock; `clock` are the times its clock may show. -/
inductive Moves (clock : ℤ → Prop) (c : Call) : Place → PC → Place → PC → Prop
  | hashed {place stage} : place = .hashed →
      Moves clock c place (.hashedCheck stage) place stage.found
  | notHashed {place stage} : place ≠ .hashed →
      Moves clock c place (.hashedCheck stage) place (.legacyCheck stage)
  | legacy {place stage} : c.LegacyIsFile place →
      Moves clock c place (.legacyCheck stage) place (.rename stage)
  | notLegacy {place stage} : ¬ c.LegacyIsFile place →
      Moves clock c place (.legacyCheck stage) place (.done .notFound)
  | renamed {place stage} : c.LegacyIsFile place →
      Moves clock c place (.rename stage) .hashed stage.found
  | notRenamed {place stage} : ¬ c.LegacyIsFile place →
      Moves clock c place (.rename stage) place (.destinationCheck stage)
  | destination {place stage} : place = .hashed →
      Moves clock c place (.destinationCheck stage) place stage.found
  | noDestination {place stage} : place ≠ .hashed →
      Moves clock c place (.destinationCheck stage) place (.done .notFound)
  | read {place} : place = .hashed → Moves clock c place .read place c.afterRead
  | notRead {place} : place ≠ .hashed → Moves clock c place .read place (.done .notFound)
  | unexpired {place now} : clock now → now ≤ c.record.expiresAt →
      Moves clock c place .clockCheck place (.hashedCheck .lock)
  | expired {place now} : clock now → c.record.expiresAt < now →
      Moves clock c place .clockCheck place .expire
  | expire {place} :
      Moves clock c place .expire (if place = .hashed then .gone else place) (.done .expired)
  | opened {place} : place = .hashed → Moves clock c place .openFile place .lockFile
  | notOpened {place} : place ≠ .hashed → Moves clock c place .openFile place (.done .notFound)
  | remove {place} : Moves clock c place .remove place (.removing (place = .hashed))
  | removed {place present} : place = .hashed →
      Moves clock c place (.removing present) .gone (.done .ok)
  | overlapped : Moves clock c .gone (.removing true) .gone (.done .ok)
  | notRemoved {place present} : place ≠ .hashed →
      Moves clock c place (.removing present) place (.done .notFound)

/-- Where the record is, who holds its lock, and what each process does next. -/
structure State (Pid : Type) where
  place : Place
  holder : Option Pid
  pc : Pid → PC

variable {Pid : Type} [DecidableEq Pid] {clock : ℤ → Prop} {c : Call}

/-- The lock after a process got to `pc`: a call that returns gives it up. -/
def State.released (s : State Pid) (p : Pid) : PC → Option Pid
  | .done _ => if s.holder = some p then none else s.holder
  | _ => s.holder

/-- One step of one of the processes. -/
inductive Step (clock : ℤ → Prop) (c : Call) : State Pid → State Pid → Prop
  | move {s : State Pid} (p : Pid) {place pc} : Moves clock c s.place (s.pc p) place pc →
      Step clock c s ⟨place, s.released p pc, Function.update s.pc p pc⟩
  | acquire {s : State Pid} (p : Pid) : s.pc p = .lockFile → s.holder = none →
      Step clock c s ⟨s.place, some p, Function.update s.pc p (.hashedCheck .revoke)⟩

/-- What else may happen: others rename or remove the record, and an access fails. -/
inductive Interferes : State Pid → State Pid → Prop
  | rename {s : State Pid} (place : Place) : s.place ≠ .gone →
      Interferes s { s with place := place }
  | fault {s : State Pid} (p : Pid) : (∀ outcome, s.pc p ≠ .done outcome) →
      Interferes s ⟨s.place, s.released p (.done .io), Function.update s.pc p (.done .io)⟩

/-- A record of the token for the command. -/
def Call.Live (c : Call) : Prop :=
  c.token ≠ "" ∧ c.record.command = c.command ∧
    (c.record.token = none ∨ c.record.token = some c.token)

/-- The record is under one of its names and every call is about to start. -/
structure Initial (c : Call) (s : State Pid) : Prop where
  place : s.place = .hashed ∨ s.place = .legacy ∧ '/' ∉ c.token.toList
  holder : s.holder = none
  pc : ∀ p, s.pc p = c.start

/-! ### At most one call returns -/

/-- The process is past the lock. -/
def PC.Locked : PC → Prop
  | .hashedCheck .revoke | .legacyCheck .revoke | .rename .revoke | .destinationCheck .revoke
  | .remove | .removing _ => True
  | _ => False

/-- Processes past the lock hold it.  Once a call returned, the record is gone for every other one,
also for one that is removing it. -/
structure Exclusive (s : State Pid) : Prop where
  holds : ∀ p, (s.pc p).Locked → s.holder = some p
  gone : ∀ p, s.pc p = .done .ok → s.place = .gone
  absent : ∀ p q, s.pc p = .done .ok → s.pc q ≠ .removing true
  unique : ∀ p q, s.pc p = .done .ok → s.pc q = .done .ok → p = q

section Moves

variable {place place' : Place} {pc pc' : PC}

theorem not_locked_found {stage : Stage} (h : stage.found.Locked) : stage = .revoke := by
  cases stage with
  | verify => exact h.elim
  | lock => exact h.elim
  | revoke => rfl

theorem Stage.found_ne_done {stage : Stage} {outcome : Outcome} :
    stage.found ≠ .done outcome := by
  cases stage <;> simp [Stage.found]

theorem Stage.found_ne_removing {stage : Stage} {present : Bool} :
    stage.found ≠ .removing present := by
  cases stage <;> simp [Stage.found]

theorem Call.afterRead_cases (c : Call) :
    c.afterRead = .done .notFound ∨ c.afterRead = .done .commandMismatch ∨
      c.afterRead = .clockCheck := by
  unfold Call.afterRead
  split_ifs
  · exact Or.inl rfl
  · exact Or.inr (Or.inl rfl)
  · exact Or.inr (Or.inr rfl)

/-- Only the lock lets a process past it. -/
theorem Moves.locked (h : Moves clock c place pc place' pc') (hl : pc'.Locked) : pc.Locked := by
  cases h with
  | hashed _ => rw [not_locked_found hl]; trivial
  | renamed _ => rw [not_locked_found hl]; trivial
  | destination _ => rw [not_locked_found hl]; trivial
  | read _ => rcases c.afterRead_cases with h | h | h <;> rw [h] at hl <;> exact hl.elim
  | @notHashed _ stage _ => cases stage <;> trivial
  | @legacy _ stage _ => cases stage <;> trivial
  | @notRenamed _ stage _ => cases stage <;> trivial
  | remove => trivial
  | removed _ => trivial
  | overlapped => trivial
  | notRemoved _ => trivial
  | _ => exact hl.elim

/-- A call returns by removing the record, or when it was removed meanwhile. -/
theorem Moves.ok (h : Moves clock c place pc place' (.done .ok)) :
    pc.Locked ∧ place' = .gone ∧ (place = .hashed ∨ pc = .removing true) := by
  generalize hpc' : PC.done .ok = pc' at h
  cases h with
  | hashed _ => exact absurd hpc'.symm Stage.found_ne_done
  | renamed _ => exact absurd hpc'.symm Stage.found_ne_done
  | destination _ => exact absurd hpc'.symm Stage.found_ne_done
  | read _ => rcases c.afterRead_cases with h | h | h <;> rw [h] at hpc' <;> cases hpc'
  | removed hplace => exact ⟨trivial, rfl, Or.inl hplace⟩
  | overlapped => exact ⟨trivial, rfl, Or.inr rfl⟩
  | _ => cases hpc'

/-- A removal that finds the file starts while it is there. -/
theorem Moves.removing (h : Moves clock c place pc place' (.removing true)) :
    place = .hashed ∧ pc.Locked := by
  generalize hpc' : PC.removing true = pc' at h
  cases h with
  | hashed _ => exact absurd hpc'.symm Stage.found_ne_removing
  | renamed _ => exact absurd hpc'.symm Stage.found_ne_removing
  | destination _ => exact absurd hpc'.symm Stage.found_ne_removing
  | read _ => rcases c.afterRead_cases with h | h | h <;> rw [h] at hpc' <;> cases hpc'
  | remove =>
    rw [PC.removing.injEq, eq_comm, decide_eq_true_eq] at hpc'
    exact ⟨hpc', trivial⟩
  | _ => cases hpc'

/-- What is gone stays gone. -/
theorem Moves.gone (h : Moves clock c place pc place' pc') (hplace : place = .gone) :
    place' = .gone := by
  cases h with
  | renamed hfile =>
    subst hplace
    simp [Call.LegacyIsFile] at hfile
  | expire => simp [hplace]
  | removed _ => rfl
  | overlapped => rfl
  | _ => exact hplace

theorem Moves.ne_done (h : Moves clock c place pc place' pc') (outcome : Outcome) :
    pc ≠ .done outcome := by
  rintro rfl
  cases h

end Moves

theorem released_of_ne {s : State Pid} {p q : Pid} {pc : PC} (h : s.holder = some q)
    (hne : q ≠ p) : s.released p pc = some q := by
  cases pc with
  | done outcome =>
    rw [State.released, if_neg, h]
    rw [h, Option.some.injEq]
    exact hne
  | _ => exact h

theorem released_of_locked {s : State Pid} {p : Pid} {pc : PC} (h : pc.Locked) :
    s.released p pc = s.holder := by
  cases pc with
  | done outcome => exact h.elim
  | _ => rfl

/-- A step of a process keeps exclusion. -/
theorem Exclusive.move {s : State Pid} (h : Exclusive s) {p : Pid} {place : Place} {pc : PC}
    (hmove : Moves clock c s.place (s.pc p) place pc) :
    Exclusive ⟨place, s.released p pc, Function.update s.pc p pc⟩ := by
  have hfirst : pc = .done .ok → ∀ q, s.pc q ≠ .done .ok := by
    rintro rfl q hq
    obtain ⟨-, -, hhashed | hremoving⟩ := hmove.ok
    · rw [h.gone q hq] at hhashed
      cases hhashed
    · exact h.absent q p hq hremoving
  refine ⟨fun q hq => ?_, fun q hq => ?_, fun q r hq hr => ?_, fun q r hq hr => ?_⟩
  · by_cases hqp : q = p
    · subst hqp
      simp only [Function.update_self] at hq
      exact (released_of_locked hq).trans (h.holds q (hmove.locked hq))
    · simp only [Function.update_of_ne hqp] at hq
      exact released_of_ne (h.holds q hq) hqp
  · by_cases hqp : q = p
    · subst hqp
      simp only [Function.update_self] at hq
      subst hq
      exact hmove.ok.2.1
    · simp only [Function.update_of_ne hqp] at hq
      exact hmove.gone (h.gone q hq)
  · by_cases hqp : q = p
    · subst hqp
      simp only [Function.update_self] at hq
      subst hq
      by_cases hrq : r = q
      · subst hrq
        simp at hr
      · simp only [Function.update_of_ne hrq] at hr
        -- both would hold the lock
        have hlock := h.holds r (by rw [hr]; trivial)
        rw [h.holds q hmove.ok.1, Option.some.injEq] at hlock
        exact hrq hlock.symm
    · simp only [Function.update_of_ne hqp] at hq
      by_cases hrp : r = p
      · subst hrp
        simp only [Function.update_self] at hr
        subst hr
        have hhashed := hmove.removing.1
        rw [h.gone q hq] at hhashed
        cases hhashed
      · simp only [Function.update_of_ne hrp] at hr
        exact h.absent q r hq hr
  · by_cases hqp : q = p
    · subst hqp
      by_cases hrq : r = q
      · exact hrq.symm
      · simp only [Function.update_self, Function.update_of_ne hrq] at hq hr
        exact absurd hr (hfirst hq r)
    · by_cases hrp : r = p
      · subst hrp
        simp only [Function.update_self, Function.update_of_ne hqp] at hq hr
        exact absurd hq (hfirst hr q)
      · simp only [Function.update_of_ne hqp, Function.update_of_ne hrp] at hq hr
        exact h.unique q r hq hr

theorem Exclusive.acquire {s : State Pid} (h : Exclusive s) {p : Pid} (hpc : s.pc p = .lockFile)
    (hfree : s.holder = none) :
    Exclusive ⟨s.place, some p, Function.update s.pc p (.hashedCheck .revoke)⟩ := by
  have hother : ∀ q (pc : PC), pc ≠ .hashedCheck .revoke →
      Function.update s.pc p (.hashedCheck .revoke) q = pc → s.pc q = pc := by
    intro q pc hne hq
    by_cases hqp : q = p
    · subst hqp
      rw [Function.update_self] at hq
      exact absurd hq.symm hne
    · rwa [Function.update_of_ne hqp] at hq
  refine ⟨fun q hq => ?_, fun q hq => ?_, fun q r hq hr => ?_, fun q r hq hr => ?_⟩
  · by_cases hqp : q = p
    · rw [hqp]
    · simp only [Function.update_of_ne hqp] at hq
      have := h.holds q hq
      rw [hfree] at this
      cases this
  · exact h.gone q (hother q _ (by simp) hq)
  · exact h.absent q r (hother q _ (by simp) hq) (hother r _ (by simp) hr)
  · exact h.unique q r (hother q _ (by simp) hq) (hother r _ (by simp) hr)

theorem Exclusive.step {s t : State Pid} (hstep : Step clock c s t) (h : Exclusive s) :
    Exclusive t := by
  cases hstep with
  | move p hmove => exact h.move hmove
  | acquire p hpc hfree => exact h.acquire hpc hfree

theorem Exclusive.interferes {s t : State Pid} (hstep : Interferes s t) (h : Exclusive s) :
    Exclusive t := by
  cases hstep with
  | rename place hplace =>
    have hnone : ∀ q, s.pc q ≠ .done .ok := fun q hq => hplace (h.gone q hq)
    exact ⟨h.holds, fun q hq => absurd hq (hnone q), fun q r hq => absurd hq (hnone q),
      fun q r hq => absurd hq (hnone q)⟩
  | fault p _ =>
    have hother : ∀ q (pc : PC), pc ≠ .done .io →
        Function.update s.pc p (.done .io) q = pc → q ≠ p ∧ s.pc q = pc := by
      intro q pc hne hq
      by_cases hqp : q = p
      · subst hqp
        rw [Function.update_self] at hq
        exact absurd hq.symm hne
      · rw [Function.update_of_ne hqp] at hq
        exact ⟨hqp, hq⟩
    refine ⟨fun q hq => ?_, fun q hq => ?_, fun q r hq hr => ?_, fun q r hq hr => ?_⟩
    · by_cases hqp : q = p
      · subst hqp
        simp only [Function.update_self] at hq
        exact hq.elim
      · simp only [Function.update_of_ne hqp] at hq
        show s.released p (.done .io) = some q
        exact released_of_ne (h.holds q hq) hqp
    · exact h.gone q (hother q _ (by simp) hq).2
    · exact h.absent q r (hother q _ (by simp) hq).2 (hother r _ (by simp) hr).2
    · exact h.unique q r (hother q _ (by simp) hq).2 (hother r _ (by simp) hr).2

omit [DecidableEq Pid] in
theorem Initial.exclusive {s : State Pid} (h : Initial c s) : Exclusive s := by
  have hstart : ∀ p, s.pc p = .done .notFound ∨ s.pc p = .hashedCheck .verify := by
    intro p
    rw [h.pc p, Call.start]
    split_ifs
    · exact Or.inl rfl
    · exact Or.inr rfl
  have hnone : ∀ q, s.pc q ≠ .done .ok := by
    intro q hq
    rcases hstart q with h | h <;> rw [h] at hq <;> cases hq
  refine ⟨fun p hp => ?_, fun q hq => absurd hq (hnone q), fun q r hq => absurd hq (hnone q),
    fun q r hq => absurd hq (hnone q)⟩
  rcases hstart p with h | h <;> rw [h] at hp <;> exact hp.elim

/-- No two calls return, whatever happens to the record. -/
theorem ok_unique {s t : State Pid} (hs : Initial c s)
    (hrun : Run.Reaches (fun a b => Step clock c a b ∨ Interferes a b) s t) {p q : Pid}
    (hp : t.pc p = .done .ok) (hq : t.pc q = .done .ok) : p = q := by
  have hinv : Exclusive t := by
    refine Run.invariant (fun a b hstep ha => ?_) hrun hs.exclusive
    rcases hstep with hstep | hstep
    · exact ha.step hstep
    · exact ha.interferes hstep
  exact hinv.unique p q hp hq

/-! ### One call returns -/

/-- The accesses that succeed while the record has its hashed name. -/
def PC.Safe : PC → Prop
  | .hashedCheck _ | .read | .clockCheck | .openFile | .lockFile | .remove | .removing _ => True
  | _ => False

/-- The first lookup, before the record was renamed. -/
def PC.Looking : PC → Prop
  | .hashedCheck .verify | .legacyCheck .verify | .rename .verify => True
  | _ => False

/-- The record waits for its rename with every process in its first lookup, or it has its hashed
name and some process does not miss it, or some call returned. -/
structure Pending (c : Call) (s : State Pid) : Prop where
  fresh : ∀ p, s.pc p ≠ .expire
  pending : (s.place = .legacy ∧ '/' ∉ c.token.toList ∧ ∀ p, (s.pc p).Looking) ∨
    (s.place = .hashed ∧ ∃ p, (s.pc p).Safe) ∨ ∃ p, s.pc p = .done .ok

theorem Stage.found_safe (stage : Stage) : stage.found.Safe := by
  cases stage <;> trivial

/-- While the record waits for its rename, a lookup goes on, or it renames the record. -/
theorem Moves.looking {pc pc' : PC} {place place' : Place} (h : Moves clock c place pc place' pc')
    (hplace : place = .legacy) (hslash : '/' ∉ c.token.toList) (hpc : pc.Looking) :
    place' = .legacy ∧ pc'.Looking ∨ place' = .hashed ∧ pc'.Safe := by
  have hfile : c.LegacyIsFile place := ⟨hslash, Or.inl hplace⟩
  cases h with
  | hashed hhashed =>
    rw [hplace] at hhashed
    cases hhashed
  | @notHashed _ stage _ => cases stage <;> first | exact hpc.elim | exact Or.inl ⟨hplace, trivial⟩
  | @legacy _ stage _ => cases stage <;> first | exact hpc.elim | exact Or.inl ⟨hplace, trivial⟩
  | notLegacy hnot => exact absurd hfile hnot
  | @renamed _ stage _ => exact Or.inr ⟨rfl, stage.found_safe⟩
  | notRenamed hnot => exact absurd hfile hnot
  | _ => exact hpc.elim

/-- A process that does not miss the record goes on, or it removes it. -/
theorem Moves.safe {pc pc' : PC} {place place' : Place} (h : Moves clock c place pc place' pc')
    (hplace : place = .hashed) (hlive : c.Live)
    (hclock : ∀ now, clock now → now ≤ c.record.expiresAt) (hpc : pc.Safe) :
    place' = .hashed ∧ pc'.Safe ∨ pc' = .done .ok := by
  have hread : c.afterRead = .clockCheck := by
    obtain ⟨-, hcommand, htoken⟩ := hlive
    rw [Call.afterRead, if_neg, if_neg (not_not.2 hcommand)]
    rintro ⟨hsome, hother⟩
    rcases htoken with h | h
    · exact hsome h
    · exact hother h
  cases h with
  | @hashed _ stage _ => exact Or.inl ⟨hplace, stage.found_safe⟩
  | notHashed hnot => exact absurd hplace hnot
  | read _ =>
    rw [hread]
    exact Or.inl ⟨hplace, trivial⟩
  | notRead hnot => exact absurd hplace hnot
  | unexpired _ _ => exact Or.inl ⟨hplace, trivial⟩
  | expired hnow hlate => exact absurd (hclock _ hnow) (not_le.2 hlate)
  | opened _ => exact Or.inl ⟨hplace, trivial⟩
  | notOpened hnot => exact absurd hplace hnot
  | remove => exact Or.inl ⟨hplace, trivial⟩
  | removed _ => exact Or.inr rfl
  | overlapped => exact Or.inr rfl
  | notRemoved hnot => exact absurd hplace hnot
  | _ => exact hpc.elim

/-- A step of another process leaves the record under its hashed name, or it removes it. -/
theorem Moves.hashed_or_ok {pc pc' : PC} {place place' : Place}
    (h : Moves clock c place pc place' pc') (hplace : place = .hashed) (hfresh : pc ≠ .expire) :
    place' = .hashed ∨ pc' = .done .ok := by
  cases h with
  | renamed _ => exact Or.inl rfl
  | expire => exact absurd rfl hfresh
  | removed _ => exact Or.inr rfl
  | overlapped => exact Or.inr rfl
  | _ => exact Or.inl hplace

/-- Nothing expires before its time. -/
theorem Moves.fresh {pc pc' : PC} {place place' : Place} (h : Moves clock c place pc place' pc')
    (hclock : ∀ now, clock now → now ≤ c.record.expiresAt) : pc' ≠ .expire := by
  rintro rfl
  generalize hpc' : PC.expire = pc' at h
  cases h with
  | @hashed _ stage _ => cases stage <;> cases hpc'
  | @renamed _ stage _ => cases stage <;> cases hpc'
  | @destination _ stage _ => cases stage <;> cases hpc'
  | read _ => rcases c.afterRead_cases with h | h | h <;> rw [h] at hpc' <;> cases hpc'
  | expired hnow hlate => exact absurd (hclock _ hnow) (not_le.2 hlate)
  | _ => cases hpc'

theorem Pending.move {s : State Pid} (h : Pending c s) (hlive : c.Live)
    (hclock : ∀ now, clock now → now ≤ c.record.expiresAt) {p : Pid} {place : Place} {pc : PC}
    (hmove : Moves clock c s.place (s.pc p) place pc) :
    Pending c ⟨place, s.released p pc, Function.update s.pc p pc⟩ := by
  refine ⟨fun q => ?_, ?_⟩
  · by_cases hqp : q = p
    · subst hqp
      simpa only [Function.update_self] using hmove.fresh hclock
    · simpa only [Function.update_of_ne hqp] using h.fresh q
  rcases h.pending with ⟨hplace, hslash, hlook⟩ | ⟨hplace, p₀, hsafe⟩ | ⟨p₀, hok⟩
  · rcases hmove.looking hplace hslash (hlook p) with ⟨hplace', hpc⟩ | ⟨hplace', hpc⟩
    · refine Or.inl ⟨hplace', hslash, fun q => ?_⟩
      by_cases hqp : q = p
      · subst hqp
        simpa only [Function.update_self] using hpc
      · simpa only [Function.update_of_ne hqp] using hlook q
    · exact Or.inr (Or.inl ⟨hplace', p, by simpa only [Function.update_self] using hpc⟩)
  · by_cases hp₀ : p₀ = p
    · subst hp₀
      rcases hmove.safe hplace hlive hclock hsafe with ⟨hplace', hpc⟩ | hpc
      · exact Or.inr (Or.inl ⟨hplace', p₀, by simpa only [Function.update_self] using hpc⟩)
      · exact Or.inr (Or.inr ⟨p₀, by simpa only [Function.update_self] using hpc⟩)
    · rcases hmove.hashed_or_ok hplace (h.fresh p) with hplace' | hpc
      · exact Or.inr (Or.inl ⟨hplace', p₀, by simpa only [Function.update_of_ne hp₀] using hsafe⟩)
      · exact Or.inr (Or.inr ⟨p, by simpa only [Function.update_self] using hpc⟩)
  · have hp₀ : p₀ ≠ p := by
      rintro rfl
      exact hmove.ne_done _ hok
    exact Or.inr (Or.inr ⟨p₀, by simpa only [Function.update_of_ne hp₀] using hok⟩)

theorem Pending.acquire {s : State Pid} (h : Pending c s) {p : Pid} (hpc : s.pc p = .lockFile) :
    Pending c ⟨s.place, some p, Function.update s.pc p (.hashedCheck .revoke)⟩ := by
  refine ⟨fun q => ?_, ?_⟩
  · by_cases hqp : q = p
    · subst hqp
      simp
    · simpa only [Function.update_of_ne hqp] using h.fresh q
  rcases h.pending with ⟨-, -, hlook⟩ | ⟨hplace, -⟩ | ⟨p₀, hok⟩
  · have := hlook p
    rw [hpc] at this
    exact this.elim
  · exact Or.inr (Or.inl ⟨hplace, p, by simp only [Function.update_self]; trivial⟩)
  · have hp₀ : p₀ ≠ p := by
      rintro rfl
      rw [hpc] at hok
      cases hok
    exact Or.inr (Or.inr ⟨p₀, by simpa only [Function.update_of_ne hp₀] using hok⟩)

omit [DecidableEq Pid] in
theorem Initial.pending [Nonempty Pid] {s : State Pid} (h : Initial c s) (hlive : c.Live) :
    Pending c s := by
  have hstart : ∀ p, s.pc p = .hashedCheck .verify := by
    intro p
    rw [h.pc p, Call.start, if_neg hlive.1]
  refine ⟨fun p => by rw [hstart p]; simp, ?_⟩
  rcases h.place with hplace | ⟨hplace, hslash⟩
  · obtain ⟨p⟩ := ‹Nonempty Pid›
    exact Or.inr (Or.inl ⟨hplace, p, by rw [hstart p]; trivial⟩)
  · exact Or.inl ⟨hplace, hslash, fun p => by rw [hstart p]; trivial⟩

/-- Without interference and before the token expires, one of the calls returns. -/
theorem exists_ok [Nonempty Pid] {s t : State Pid} (hs : Initial c s) (hlive : c.Live)
    (hclock : ∀ now, clock now → now ≤ c.record.expiresAt) (hrun : Run.Reaches (Step clock c) s t)
    (hdone : ∀ p, ∃ outcome, t.pc p = .done outcome) : ∃ p, t.pc p = .done .ok := by
  have hinv : Pending c t := by
    refine Run.invariant (fun a b hstep ha => ?_) hrun (hs.pending hlive)
    cases hstep with
    | move p hmove => exact ha.move hlive hclock hmove
    | acquire p hpc _ => exact ha.acquire hpc
  rcases hinv.pending with ⟨-, -, hlook⟩ | ⟨-, p, hsafe⟩ | hok
  · obtain ⟨p⟩ := ‹Nonempty Pid›
    obtain ⟨outcome, hp⟩ := hdone p
    have := hlook p
    rw [hp] at this
    exact this.elim
  · obtain ⟨outcome, hp⟩ := hdone p
    rw [hp] at hsafe
    exact hsafe.elim
  · exact hok

/-- A consent token is used once: in every interleaving at most one call returns, and exactly one
does when the token is live, nobody interferes and all calls finish. -/
theorem single_use (c : Call) (clock : ℤ → Prop) {s t : State Pid} (hs : Initial c s) :
    (Run.Reaches (fun a b => Step clock c a b ∨ Interferes a b) s t →
      ∀ p q, t.pc p = .done .ok → t.pc q = .done .ok → p = q) ∧
    (Nonempty Pid → c.Live → (∀ now, clock now → now ≤ c.record.expiresAt) →
      Run.Reaches (Step clock c) s t → (∀ p, ∃ outcome, t.pc p = .done outcome) →
        ∃! p, t.pc p = .done .ok) := by
  refine ⟨fun hrun p q hp hq => ok_unique hs hrun hp hq, fun hne hlive hclock hrun hdone => ?_⟩
  obtain ⟨p, hp⟩ := exists_ok hs hlive hclock hrun hdone
  refine ⟨p, hp, fun q hq => ?_⟩
  exact ok_unique hs (Relation.ReflTransGen.mono (fun _ _ h => Or.inl h) _ _ hrun) hq hp

/-- A call on a token that is live until the time 100. -/
def sampleCall : Call where
  command := "execute"
  token := "abc"
  record := ⟨"execute", 0, 100, some "abc"⟩

/-- Two processes at these accesses. -/
def two (place : Place) (holder : Option Bool) (a b : PC) : State Bool :=
  ⟨place, holder, fun p => if p then a else b⟩

theorem update_two_true (a b pc : PC) :
    Function.update (fun p : Bool => if p then a else b) true pc = fun p => if p then pc else b := by
  funext p
  cases p <;> rfl

theorem update_two_false (a b pc : PC) :
    Function.update (fun p : Bool => if p then a else b) false pc = fun p => if p then a else pc := by
  funext p
  cases p <;> rfl

theorem two_move_true {clock : ℤ → Prop} {c : Call} {place place' : Place} {holder : Option Bool}
    {a b a' : PC} (h : Moves clock c place a place' a') :
    Step clock c (two place holder a b)
      (two place' ((two place holder a b).released true a') a' b) := by
  have hstep := Step.move (s := two place holder a b) true h
  rwa [two, update_two_true] at hstep

theorem two_move_false {clock : ℤ → Prop} {c : Call} {place place' : Place} {holder : Option Bool}
    {a b b' : PC} (h : Moves clock c place b place' b') :
    Step clock c (two place holder a b)
      (two place' ((two place holder a b).released false b') a b') := by
  have hstep := Step.move (s := two place holder a b) false h
  rwa [two, update_two_false] at hstep

theorem two_acquire_true {clock : ℤ → Prop} {c : Call} {place : Place} {b : PC} :
    Step clock c (two place none .lockFile b) (two place (some true) (.hashedCheck .revoke) b) := by
  have hstep := @Step.acquire Bool _ clock c (two place none .lockFile b) true rfl rfl
  rwa [two, update_two_true] at hstep

/-- Two calls on a legacy record: the one that renames it returns, the other one misses it. -/
theorem single_use_legacy :
    ∃ t : State Bool, Run.Reaches (Step (· ≤ 100) sampleCall)
        (two .legacy none (.hashedCheck .verify) (.hashedCheck .verify)) t ∧
      (∀ p, ∃ outcome, t.pc p = .done outcome) ∧ ∃! p, t.pc p = .done .ok := by
  have hfile : sampleCall.LegacyIsFile .legacy := ⟨by decide, Or.inl rfl⟩
  have hmissing : ¬ sampleCall.LegacyIsFile .gone := by simp [Call.LegacyIsFile]
  have hinitial : Initial sampleCall
      (two .legacy none (.hashedCheck .verify) (.hashedCheck .verify)) :=
    ⟨Or.inr ⟨rfl, by decide⟩, rfl, fun p => by cases p <;> rfl⟩
  have hrun : Run.Reaches (Step (· ≤ 100) sampleCall)
      (two .legacy none (.hashedCheck .verify) (.hashedCheck .verify))
      (two .gone none (.done .ok) (.done .notFound)) := by
    refine .head (two_move_true (.notHashed (by decide))) ?_
    refine .head (two_move_false (.notHashed (by decide))) ?_
    refine .head (two_move_true (.legacy hfile)) ?_
    refine .head (two_move_true (.renamed hfile)) ?_
    refine .head (two_move_true (.read rfl)) ?_
    refine .head (two_move_true (.unexpired (show (7 : ℤ) ≤ 100 by decide) (by decide))) ?_
    refine .head (two_move_true (.hashed rfl)) ?_
    refine .head (two_move_true (.opened rfl)) ?_
    refine .head two_acquire_true ?_
    refine .head (two_move_true (.hashed rfl)) ?_
    refine .head (two_move_true .remove) ?_
    refine .head (two_move_true (.removed rfl)) ?_
    exact .single (two_move_false (.notLegacy hmissing))
  have hdone : ∀ p, ∃ outcome, (two .gone none (.done .ok) (.done .notFound)).pc p =
      .done outcome := by
    intro p
    cases p
    · exact ⟨.notFound, rfl⟩
    · exact ⟨.ok, rfl⟩
  exact ⟨_, hrun, hdone, (single_use sampleCall (· ≤ 100) hinitial).2 inferInstance
    ⟨by decide, rfl, Or.inr rfl⟩ (fun now h => h) hrun hdone⟩

end EraseMe.Identity
