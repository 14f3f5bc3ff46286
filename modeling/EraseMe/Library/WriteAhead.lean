import Mathlib.Data.List.Basic

/-!
# Databases with a write-ahead log

What a database engine promises of a database file and the log beside it, whatever their format:
the transactions that the two hold together are changed by a commit only.  A checkpoint moves them
from the log into the file; an operation that fails may leave both rearranged.
-/

namespace WriteAhead

/-- A database engine for transactions `τ`, on the octets of a file and of its log. -/
structure Database (τ : Type) where
  /-- The transactions that a file and its log hold, in order; nothing when the engine rejects
  them. -/
  view : List UInt8 → List UInt8 → Option (List τ)
  /-- Opening sets up the file when it is new. -/
  prepare : List UInt8 → List UInt8 → List UInt8 × List UInt8
  commit : List UInt8 → List UInt8 → τ → List UInt8 × List UInt8
  /-- A checkpoint that truncates the log. -/
  checkpoint : List UInt8 → List UInt8 → List UInt8
  /-- What an opening or a transaction that fails leaves, one way of many. -/
  spill : ℕ → List UInt8 → List UInt8 → List UInt8 × List UInt8
  /-- What a checkpoint that fails has copied into the file. -/
  copied : ℕ → List UInt8 → List UInt8 → List UInt8
  view_nil : view [] [] = some []
  view_prepare : ∀ file log, view (prepare file log).1 (prepare file log).2 = view file log
  view_commit : ∀ file log tx transactions, view file log = some transactions →
    view (commit file log tx).1 (commit file log tx).2 = some (transactions ++ [tx])
  view_checkpoint : ∀ file log, view (checkpoint file log) [] = view file log
  view_spill : ∀ n file log, view (spill n file log).1 (spill n file log).2 = view file log
  view_copied : ∀ n file log, view (copied n file log) log = view file log

/-! ### A sample

Each transaction is an octet, and a file that is not new begins with a header. -/

namespace Sample

/-- How a file starts. -/
def header : List UInt8 := [83, 81, 76, 105, 116, 101, 32, 102, 111, 114, 109, 97, 116, 32, 51, 0]

/-- What a database shows. -/
def view (file log : List UInt8) : Option (List UInt8) :=
  if file = [] then some log
  else if header.isPrefixOf file then some (file.drop header.length ++ log)
  else none

theorem view_header_append (rest log : List UInt8) :
    view (header ++ rest) log = some (rest ++ log) := by
  have hne : header ++ rest ≠ [] := by simp [header]
  have hprefix : header.isPrefixOf (header ++ rest) = true :=
    List.isPrefixOf_iff_prefix.mpr (List.prefix_append _ _)
  rw [view, if_neg hne, if_pos hprefix, List.drop_left]

theorem view_append (file log more : List UInt8) :
    view file (log ++ more) = (view file log).map (· ++ more) := by
  unfold view
  split_ifs
  · rfl
  · rw [Option.map_some, List.append_assoc]
  · rfl

/-- All transactions in one file. -/
def flatten (file log : List UInt8) : List UInt8 :=
  match view file log with
  | some transactions => header ++ transactions
  | none => file

theorem view_flatten (file log : List UInt8) : view (flatten file log) [] = view file log := by
  have happend := view_append file [] log
  rw [List.nil_append] at happend
  cases h : view file log with
  | some transactions => rw [flatten, h, view_header_append, List.append_nil]
  | none =>
    rw [flatten, h]
    rw [h] at happend
    exact Option.map_eq_none_iff.mp happend.symm

/-- Setting up a file writes its header. -/
def prepare (file log : List UInt8) : List UInt8 × List UInt8 :=
  if file = [] then (header, log) else (file, log)

theorem view_prepare (file log : List UInt8) :
    view (prepare file log).1 (prepare file log).2 = view file log := by
  by_cases hnil : file = []
  · rw [prepare, if_pos hnil, ← List.append_nil header, view_header_append, List.nil_append, view,
      if_pos hnil]
  · rw [prepare, if_neg hnil]

/-- A database of octets. -/
def database : Database UInt8 where
  view := view
  prepare := prepare
  commit file log tx := (file, log ++ [tx])
  checkpoint := flatten
  spill _ file log := (file, log)
  copied _ file _ := file
  view_nil := rfl
  view_prepare := view_prepare
  view_commit file log tx transactions h := by rw [view_append, h, Option.map_some]
  view_checkpoint := view_flatten
  view_spill _ _ _ := rfl
  view_copied _ _ _ := rfl

end Sample

end WriteAhead
