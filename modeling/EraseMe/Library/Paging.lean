import EraseMe.Library.Sorted

/-!
# Pages of a list sorted by a key

A list sorted by a key is cut into pages, and each page may be cut from another order of the same
elements that is sorted by the key.  The pages have every element once, whatever the orders are,
when no two elements with equal keys stand on different sides of a boundary
(`flatMap_pages_perm`); where two do, some two orders show one element on both pages
(`exists_shift`).
-/

namespace Paging

variable {α κ : Type*}

/-- The elements of a page; pages are counted from zero. -/
def page (size k : ℕ) (l : List α) : List α := (l.drop (k * size)).take size

theorem take_append_page (size k : ℕ) (l : List α) :
    l.take (k * size) ++ page size k l = l.take ((k + 1) * size) := by
  rw [page, Nat.succ_mul, List.take_add]

/-- The first pages in turn. -/
theorem flatMap_page (size n : ℕ) (l : List α) :
    ((List.range n).flatMap fun k => page size k l) = l.take (n * size) := by
  induction n with
  | zero => simp
  | succ n ih =>
    rw [List.range_succ, List.flatMap_append, ih, List.flatMap_singleton, take_append_page]

theorem mem_page {size k : ℕ} {l : List α} {a : α} {i : ℕ} (hi : l[i]? = some a)
    (hlo : k * size ≤ i) (hhi : i < (k + 1) * size) : a ∈ page size k l := by
  rw [Nat.succ_mul] at hhi
  refine List.mem_of_getElem? (i := i - k * size) ?_
  rw [page, List.getElem?_take_of_lt (by omega), List.getElem?_drop,
    Nat.add_sub_cancel' hlo, hi]

theorem length_page (size k : ℕ) (l : List α) :
    (page size k l).length = min size (l.length - k * size) := by
  rw [page, List.length_take, List.length_drop]

/-! ### Boundaries -/

variable [LinearOrder κ]

/-- No key stands on both sides of a position. -/
def Cut (i : ℕ) (keys : List κ) : Prop := ∀ x ∈ keys.take i, ∀ y ∈ keys.drop i, x < y

instance (i : ℕ) (keys : List κ) : Decidable (Cut i keys) :=
  inferInstanceAs (Decidable (∀ x ∈ keys.take i, ∀ y ∈ keys.drop i, x < y))

/-- Sorted by a key. -/
def SortedBy (key : α → κ) (l : List α) : Prop := (l.map key).Pairwise (· ≤ ·)

variable {key : α → κ} {l l' : List α} {i size : ℕ}

/-- In a list where no element without a property stands before one with it, those with the
property come first. -/
theorem filter_eq_take {p : α → Bool} (hl : l.Pairwise fun a b => p b = true → p a = true) :
    l.filter p = l.take (l.countP p) := by
  have htake : (l.take (l.countP p)).filter p = l.take (l.countP p) :=
    List.filter_eq_self.2 (Sorted.forall_mem_take_of_le_countP hl le_rfl)
  have hsplit : l.filter p = (l.take (l.countP p)).filter p ++ (l.drop (l.countP p)).filter p := by
    rw [← List.filter_append, List.take_append_drop]
  have hlen : ((l.drop (l.countP p)).filter p).length = 0 := by
    have h := congrArg List.length hsplit
    rw [List.length_append, htake, ← List.countP_eq_length_filter, List.length_take,
      min_eq_left List.countP_le_length] at h
    omega
  rw [hsplit, htake, List.eq_nil_of_length_eq_zero hlen, List.append_nil]

/-- The elements before a boundary do not depend on the order of equal keys. -/
theorem take_perm_of_cut (h' : SortedBy key l') (hperm : l'.Perm l) (hcut : Cut i (l.map key)) :
    (l'.take i).Perm (l.take i) := by
  classical
  -- the elements before the boundary are those whose keys lie below all keys behind it
  let p : α → Bool := fun a => ∀ y ∈ (l.map key).drop i, key a < y
  have hdown {m : List α} (hm : SortedBy key m) :
      m.Pairwise fun a b => p b = true → p a = true := by
    refine (List.pairwise_map.1 hm).imp fun hab hb => ?_
    simp only [p, decide_eq_true_eq] at hb ⊢
    exact fun y hy => lt_of_le_of_lt hab (hb y hy)
  have hbefore : l.take i = l.filter p := by
    have hsplit : l.filter p = (l.take i).filter p ++ (l.drop i).filter p := by
      rw [← List.filter_append, List.take_append_drop]
    have hall : (l.take i).filter p = l.take i := by
      refine List.filter_eq_self.2 fun a ha => ?_
      simp only [p, decide_eq_true_eq]
      refine hcut (key a) ?_
      rw [← List.map_take]
      exact List.mem_map_of_mem ha
    have hnone : (l.drop i).filter p = [] := by
      refine List.filter_eq_nil_iff.2 fun b hb => ?_
      simp only [p, decide_eq_true_eq]
      intro hlt
      refine lt_irrefl (key b) (hlt (key b) ?_)
      rw [← List.map_drop]
      exact List.mem_map_of_mem hb
    rw [hsplit, hall, hnone, List.append_nil]
  have hcount : l'.take i = l'.filter p := by
    have hlen := congrArg List.length hbefore
    rw [← List.countP_eq_length_filter, List.length_take, ← hperm.countP_eq,
      ← hperm.length_eq] at hlen
    rw [filter_eq_take (hdown h'), ← hlen]
    rcases le_total i l'.length with hle | hle
    · rw [min_eq_left hle]
    · rw [min_eq_right hle, List.take_of_length_le hle, List.take_length]
  rw [hcount, hbefore]
  exact hperm.filter p

/-- Nor does a page between two boundaries. -/
theorem page_perm_of_cut {k : ℕ} (h' : SortedBy key l') (hperm : l'.Perm l)
    (hcut : ∀ k, Cut (k * size) (l.map key)) : (page size k l').Perm (page size k l) := by
  have hlow := take_perm_of_cut h' hperm (hcut k)
  have hhigh := take_perm_of_cut h' hperm (hcut (k + 1))
  rw [← take_append_page, ← take_append_page] at hhigh
  exact (List.perm_append_left_iff _).1 ((hlow.symm.append_right _).trans hhigh)

/-- The pages have every element once, each taken from an order of its own. -/
theorem flatMap_pages_perm {n : ℕ} {orders : ℕ → List α}
    (horders : ∀ k, SortedBy key (orders k) ∧ (orders k).Perm l)
    (hcut : ∀ k, Cut (k * size) (l.map key)) (hn : l.length ≤ n * size) :
    ((List.range n).flatMap fun k => page size k (orders k)).Perm l := by
  have hpages : ((List.range n).flatMap fun k => page size k (orders k)).Perm
      ((List.range n).flatMap fun k => page size k l) :=
    List.Perm.flatMap_left _ fun k _ =>
      page_perm_of_cut (horders k).1 (horders k).2 hcut
  rwa [flatMap_page, List.take_of_length_le hn] at hpages

/-! ### Ties across a boundary -/

theorem exists_tie (h : SortedBy key l) (hcut : ¬ Cut i (l.map key)) :
    ∃ pre a b post, l = pre ++ a :: b :: post ∧ i = pre.length + 1 ∧ key a = key b := by
  unfold Cut at hcut
  push Not at hcut
  obtain ⟨x, hx, y, hy, hyx⟩ := hcut
  have hsplit := List.take_append_drop i l
  rw [← List.map_take] at hx
  rw [← List.map_drop] at hy
  rcases List.eq_nil_or_concat (l.take i) with hnil | ⟨pre, a, hpre⟩
  · rw [hnil] at hx
    cases hx
  rcases hpost : l.drop i with _ | ⟨b, post⟩
  · rw [hpost] at hy
    cases hy
  have hi : i = pre.length + 1 := by
    have hlen := congrArg List.length hpre
    have hlong := congrArg List.length hpost
    simp only [List.length_take, List.length_drop, List.length_append, List.length_cons,
      List.length_nil, List.concat_eq_append] at hlen hlong
    omega
  have hl : l = pre ++ a :: b :: post := by
    rw [← hsplit, hpre, hpost]
    simp
  refine ⟨pre, a, b, post, hl, hi, ?_⟩
  rw [hpre, List.concat_eq_append] at hx
  rw [hpost] at hy
  rw [SortedBy, hl, List.pairwise_map] at h
  obtain ⟨-, htail, hacross⟩ := List.pairwise_append.1 h
  obtain ⟨hhead, htail⟩ := List.pairwise_cons.1 htail
  -- `x ≤ key a ≤ key b ≤ y ≤ x`
  have hxa : x ≤ key a := by
    obtain ⟨c, hc, rfl⟩ := List.mem_map.1 hx
    rcases List.mem_append.1 hc with hc | hc
    · exact hacross c hc a (by simp)
    · rw [List.mem_singleton.1 hc]
  have hby : key b ≤ y := by
    obtain ⟨c, hc, rfl⟩ := List.mem_map.1 hy
    rcases List.mem_cons.1 hc with rfl | hc
    · exact le_refl _
    · exact (List.pairwise_cons.1 htail).1 c hc
  exact le_antisymm (hhead b (by simp)) (hby.trans (hyx.trans hxa))

/-- Where a tie stands across a boundary, another order has the element before the boundary behind
it. -/
theorem exists_shift (h : SortedBy key l) (hcut : ¬ Cut i (l.map key)) :
    ∃ a l', SortedBy key l' ∧ l'.Perm l ∧ 0 < i ∧ l[i - 1]? = some a ∧ l'[i]? = some a := by
  obtain ⟨pre, a, b, post, rfl, rfl, hkey⟩ := exists_tie h hcut
  refine ⟨a, pre ++ b :: a :: post, ?_, (List.Perm.swap a b post).append_left pre,
    Nat.succ_pos _, by simp, by simp⟩
  have hkeys : (pre ++ b :: a :: post).map key = (pre ++ a :: b :: post).map key := by
    simp [hkey]
  rw [SortedBy, hkeys]
  exact h

end Paging
