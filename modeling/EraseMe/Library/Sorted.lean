import Mathlib.Data.List.Sort
import Mathlib.Tactic

/-!
# Sorted lists

Windows of sorted lists: the first elements of a sorted list contain everything up to the last of
them.  Images of sorted lists: when the images of a sorted list are sorted by another relation,
and when a sort puts an element last.
-/

namespace Sorted

variable {α : Type*}

theorem getLastD_mem {l : List α} (hl : l ≠ []) (d : α) : l.getLastD d ∈ l := by
  cases l with
  | nil => exact absurd rfl hl
  | cons a l =>
    rw [List.getLastD_cons]
    exact List.getLastD_mem_cons

/-- Where no element without a property stands before one with it, a window no longer than the
number of elements with the property holds only such. -/
theorem forall_mem_take_of_le_countP {l : List α} {p : α → Bool}
    (hl : l.Pairwise fun a b => p b = true → p a = true) {n : ℕ} (hn : n ≤ l.countP p) :
    ∀ a ∈ l.take n, p a = true := by
  induction l generalizing n with
  | nil => simp
  | cons a l ih =>
    obtain ⟨hhead, htail⟩ := List.pairwise_cons.1 hl
    cases n with
    | zero => simp
    | succ n =>
      have ha : p a = true := by
        obtain ⟨b, hb, hpb⟩ := List.countP_pos_iff.1 (lt_of_lt_of_le n.succ_pos hn)
        rcases List.mem_cons.1 hb with rfl | hb
        · exact hpb
        · exact hhead b hb hpb
      rw [List.countP_cons_of_pos ha] at hn
      rw [List.take_succ_cons, List.forall_mem_cons]
      exact ⟨ha, ih htail (Nat.le_of_succ_le_succ hn)⟩

/-! ### Images and sorts -/

section Images

variable {β : Type*} {le : α → α → Prop} {R : β → β → Prop} {f : α → Option β}

/-- The images of a list sorted by `le` are sorted by `R` exactly when `le` gives `R` between any
two of them. -/
theorem pairwise_filterMap_iff {l : List α} (hl : l.Pairwise le)
    (hanti : ∀ a ∈ l, ∀ b ∈ l, le a b → le b a → a = b) (hrefl : ∀ x, R x x) :
    (l.filterMap f).Pairwise R ↔
      ∀ a ∈ l, ∀ b ∈ l, le a b → ∀ x y, f a = some x → f b = some y → R x y := by
  rw [List.pairwise_filterMap]
  constructor
  · intro h a ha b hb hab x y hx hy
    by_cases heq : a = b
    · subst heq
      rw [hx] at hy
      cases hy
      exact hrefl x
    · -- the pair stands in the list in one of the two orders
      have hboth := hl.and h
      have hcases : (le a b ∧ ∀ x, f a = some x → ∀ y, f b = some y → R x y) ∨
          (le b a ∧ ∀ x, f b = some x → ∀ y, f a = some y → R x y) := by
        obtain ⟨i, hi, rfl⟩ := List.getElem_of_mem ha
        obtain ⟨j, hj, rfl⟩ := List.getElem_of_mem hb
        rw [List.pairwise_iff_getElem] at hboth
        rcases Nat.lt_trichotomy i j with hij | rfl | hij
        · exact Or.inl (hboth i j hi hj hij)
        · exact absurd rfl heq
        · exact Or.inr (hboth j i hj hi hij)
      rcases hcases with ⟨-, hR⟩ | ⟨hba, -⟩
      · exact hR x hx y hy
      · exact absurd (hanti a ha b hb hab hba) heq
  · intro h
    refine hl.imp_of_mem fun ha hb hab x hx y hy => ?_
    exact h _ ha _ hb hab x y hx hy

variable [DecidableRel le]

/-- One element more is put somewhere between the others. -/
theorem exists_insertionSort_append_singleton [Std.Total le] [IsTrans α le] {l : List α} {a : α}
    (hanti : ∀ b ∈ l ++ [a], ∀ c ∈ l ++ [a], le b c → le c b → b = c) :
    ∃ l₁ l₂, l.insertionSort le = l₁ ++ l₂ ∧ (l ++ [a]).insertionSort le = l₁ ++ a :: l₂ := by
  have heq : (l ++ [a]).insertionSort le = (a :: l).insertionSort le := by
    refine List.Perm.eq_of_pairwise (fun b c hb hc (hbc : le b c) hcb => ?_)
      (List.pairwise_insertionSort le _) (List.pairwise_insertionSort le _) ?_
    · refine hanti b ((List.mem_insertionSort le).1 hb) c ?_ hbc hcb
      have hmem := (List.mem_insertionSort le).1 hc
      simpa [or_comm] using hmem
    · exact (List.perm_insertionSort le _).trans
        ((List.perm_append_singleton a l).trans (List.perm_insertionSort le _).symm)
  exact ⟨_, _, List.takeWhile_append_dropWhile.symm,
    heq.trans (List.insertionSort_cons_eq_take_drop le a l)⟩

/-- An element that is above all others comes last. -/
theorem insertionSort_append_singleton [Std.Total le] [IsTrans α le] {l : List α} {a : α}
    (hanti : ∀ b ∈ l ++ [a], ∀ c ∈ l ++ [a], le b c → le c b → b = c) (h : ∀ b ∈ l, le b a) :
    (l ++ [a]).insertionSort le = l.insertionSort le ++ [a] := by
  refine List.Perm.eq_of_pairwise (fun b c hb hc (hbc : le b c) hcb => ?_)
    (List.pairwise_insertionSort le _) ?_ ?_
  · refine hanti b ((List.mem_insertionSort le).1 hb) c ?_ hbc hcb
    simpa using hc
  · refine List.pairwise_append.2 ⟨List.pairwise_insertionSort le _, List.pairwise_singleton _ _,
      fun b hb c hc => ?_⟩
    rw [List.mem_singleton.1 hc]
    exact h b ((List.mem_insertionSort le).1 hb)
  · exact (List.perm_insertionSort le _).trans
      ((List.perm_insertionSort le l).symm.append_right [a])

end Images

variable [LinearOrder α]

/-- The last element of a sorted list is its largest. -/
theorem le_getLastD {l : List α} (hl : l.Pairwise (· ≤ ·)) (d : α) {a : α} (ha : a ∈ l) :
    a ≤ l.getLastD d := by
  induction l generalizing d with
  | nil => cases ha
  | cons b l ih =>
    rw [List.pairwise_cons] at hl
    rw [List.getLastD_cons]
    rcases List.mem_cons.1 ha with rfl | ha
    · rcases List.eq_nil_or_concat l with rfl | ⟨l', c, rfl⟩
      · exact le_refl _
      · exact hl.1 _ (getLastD_mem (by simp) _)
    · exact ih hl.2 b ha

/-- Everything up to the last element of a window is in the window. -/
theorem mem_take_of_le {l : List α} (hl : l.Pairwise (· ≤ ·)) {n : ℕ} {a : α} (d : α)
    (ha : a ∈ l) (hle : a ≤ (l.take n).getLastD d) (hn : l.take n ≠ []) : a ∈ l.take n := by
  rw [← List.take_append_drop n l] at hl ha
  rcases List.mem_append.1 ha with ha | ha
  · exact ha
  · have hmem := getLastD_mem hn d
    have hge : (l.take n).getLastD d ≤ a := (List.pairwise_append.1 hl).2.2 _ hmem a ha
    rw [le_antisymm hle hge]
    exact hmem

end Sorted
