import Mathlib.Data.List.Sort
import Mathlib.Tactic

/-!
# Intervals chosen from the left

Intervals are sorted by their start, the longer one first, and each is kept that does not start
before the end of the one kept before it (`sweep`).  Cutting all of them short at a bound before the
sweep or after it gives the same intervals, so that below the bound the same is covered
(`covers_sweep_clip`).
-/

namespace Intervals

variable {α : Type*} [LinearOrder α]

/-- By start, the longer one first. -/
def First (a b : α × α) : Prop := a.1 < b.1 ∨ a.1 = b.1 ∧ b.2 ≤ a.2

instance : DecidableRel (First (α := α)) := fun a b =>
  inferInstanceAs (Decidable (a.1 < b.1 ∨ a.1 = b.1 ∧ b.2 ≤ a.2))

instance : Std.Total (First (α := α)) where
  total a b := by
    rcases lt_trichotomy a.1 b.1 with h | h | h
    · exact Or.inl (Or.inl h)
    · exact (le_total b.2 a.2).imp (fun hle => Or.inr ⟨h, hle⟩) fun hle => Or.inr ⟨h.symm, hle⟩
    · exact Or.inr (Or.inl h)

instance : IsTrans (α × α) First where
  trans a b c hab hbc := by
    rcases hab with hab | ⟨hab, hle⟩ <;> rcases hbc with hbc | ⟨hbc, hle'⟩
    · exact Or.inl (hab.trans hbc)
    · exact Or.inl (hbc ▸ hab)
    · exact Or.inl (hab ▸ hbc)
    · exact Or.inr ⟨hab.trans hbc, hle'.trans hle⟩

instance : Std.Antisymm (First (α := α)) where
  antisymm a b hab hba := by
    rcases hab with hab | ⟨hab, hle⟩
    · rcases hba with hba | ⟨hba, -⟩
      · exact absurd hba hab.asymm
      · exact absurd hba hab.ne'
    · rcases hba with hba | ⟨-, hle'⟩
      · exact absurd hba hab.not_gt
      · exact Prod.ext hab (le_antisymm hle' hle)

/-- Keep what does not start before the end of the interval kept before it. -/
def choose : Option α → List (α × α) → List (α × α)
  | _, [] => []
  | last, a :: l => if ∀ e ∈ last, e ≤ a.1 then a :: choose (some a.2) l else choose last l

/-- Choose from the sorted intervals. -/
def sweep (l : List (α × α)) : List (α × α) := choose none (l.insertionSort First)

/-- An interval cut short at a bound. -/
def cutAt (n : α) (a : α × α) : α × α := (a.1, min a.2 n)

/-- The intervals that start before a bound, cut short there. -/
def clip (n : α) (l : List (α × α)) : List (α × α) := (l.filter fun a => a.1 < n).map (cutAt n)

/-- One of the intervals holds the point. -/
def Covers (l : List (α × α)) (x : α) : Prop := ∃ a ∈ l, a.1 ≤ x ∧ x < a.2

theorem clip_cons_of_lt {n : α} {a : α × α} (h : a.1 < n) (l : List (α × α)) :
    clip n (a :: l) = cutAt n a :: clip n l := by
  rw [clip, List.filter_cons_of_pos (by simpa using h), List.map_cons, clip]

theorem mem_clip {n : α} {l : List (α × α)} {b : α × α} :
    b ∈ clip n l ↔ ∃ a ∈ l, a.1 < n ∧ cutAt n a = b := by
  simp [clip, and_assoc]

theorem clip_append (n : α) (l l' : List (α × α)) : clip n (l ++ l') = clip n l ++ clip n l' := by
  simp [clip]

theorem clip_flatMap {β : Type*} (n : α) (l : List β) (f : β → List (α × α)) :
    clip n (l.flatMap f) = l.flatMap fun b => clip n (f b) := by
  induction l with
  | nil => rfl
  | cons b l ih => rw [List.flatMap_cons, clip_append, ih, List.flatMap_cons]

theorem length_clip_le (n : α) (l : List (α × α)) : (clip n l).length ≤ l.length := by
  rw [clip, List.length_map]
  exact List.length_filter_le _ _

/-- Where no interval holds the bound inside, those are left that end by it. -/
theorem clip_eq_filter {n : α} {l : List (α × α)} (hlt : ∀ a ∈ l, a.1 < a.2)
    (h : ∀ a ∈ l, ¬ (a.1 < n ∧ n < a.2)) : clip n l = l.filter fun a => a.2 ≤ n := by
  have hiff : ∀ a ∈ l, (a.1 < n ↔ a.2 ≤ n) := fun a ha =>
    ⟨fun hn => not_lt.1 fun hlate => h a ha ⟨hn, hlate⟩, (hlt a ha).trans_le⟩
  have hfilter : (l.filter fun a => a.1 < n) = l.filter fun a => a.2 ≤ n :=
    List.filter_congr fun a ha => by simp only [hiff a ha]
  rw [clip, hfilter]
  refine (List.map_congr_left fun a ha => ?_).trans (List.map_id _)
  have hle : a.2 ≤ n := by simpa using (List.mem_filter.1 ha).2
  rw [cutAt, min_eq_left hle]
  rfl

/-! ### Sorting -/

theorem First.cutAt {a b : α × α} (h : First a b) (n : α) :
    First (cutAt n a) (Intervals.cutAt n b) :=
  h.imp id fun h => ⟨h.1, min_le_min_right n h.2⟩

theorem First.le {a b : α × α} (h : First a b) : a.1 ≤ b.1 := by
  rcases h with h | h
  · exact h.le
  · exact h.1.le

/-- Sorting what is cut short is cutting short what is sorted. -/
theorem insertionSort_clip (n : α) (l : List (α × α)) :
    (clip n l).insertionSort First = clip n (l.insertionSort First) := by
  have hperm : (clip n (l.insertionSort First)).Perm (clip n l) :=
    ((List.perm_insertionSort First l).filter _).map _
  refine List.Perm.eq_of_pairwise' (List.pairwise_insertionSort _ _) ?_
    ((List.perm_insertionSort First _).trans hperm.symm)
  refine List.pairwise_map.2 (((List.pairwise_insertionSort First l).filter _).imp ?_)
  exact fun h => h.cutAt n

/-! ### Choosing -/

theorem mem_of_mem_choose {last : Option α} {l : List (α × α)} {a : α × α}
    (h : a ∈ choose last l) : a ∈ l := by
  induction l generalizing last with
  | nil => exact h
  | cons b l ih =>
    rw [choose] at h
    split_ifs at h
    · rcases List.mem_cons.1 h with rfl | h
      · exact List.mem_cons_self
      · exact List.mem_cons_of_mem _ (ih h)
    · exact List.mem_cons_of_mem _ (ih h)

/-- Nothing is left of intervals that start at the bound or later. -/
theorem clip_eq_nil {n : α} {l : List (α × α)} (h : ∀ a ∈ l, n ≤ a.1) : clip n l = [] := by
  rw [clip, List.filter_eq_nil_iff.2 fun a ha => by simpa using h a ha, List.map_nil]

/-- Choosing from what is cut short is cutting short what is chosen. -/
theorem choose_clip (n : α) {l : List (α × α)} (hl : l.Pairwise First) (last : Option α) :
    choose (last.map (min · n)) (clip n l) = clip n (choose last l) := by
  induction l generalizing last with
  | nil => rfl
  | cons a l ih =>
    have hrest := (List.pairwise_cons.1 hl).2
    by_cases ha : a.1 < n
    · have hcond : (∀ e ∈ last.map (min · n), e ≤ (cutAt n a).1) ↔ ∀ e ∈ last, e ≤ a.1 := by
        cases last with
        | none => simp
        | some e => simp [cutAt, not_le.2 ha]
      rw [clip_cons_of_lt ha, choose, choose]
      by_cases hfree : ∀ e ∈ last, e ≤ a.1
      · rw [if_pos hfree, if_pos (hcond.2 hfree), clip_cons_of_lt ha, ← ih hrest (some a.2)]
        rfl
      · rw [if_neg hfree, if_neg (fun h => hfree (hcond.1 h)), ih hrest]
    · -- from here on everything starts at the bound or later
      have hlate : ∀ b ∈ a :: l, n ≤ b.1 := by
        intro b hb
        rcases List.mem_cons.1 hb with rfl | hb
        · exact not_lt.1 ha
        · exact (not_lt.1 ha).trans ((List.pairwise_cons.1 hl).1 b hb).le
      rw [clip_eq_nil hlate, clip_eq_nil fun b hb => hlate b (mem_of_mem_choose hb)]
      rfl

theorem covers_clip {n x : α} (hx : x < n) (l : List (α × α)) :
    Covers (clip n l) x ↔ Covers l x := by
  constructor
  · rintro ⟨b, hb, hstart, hstop⟩
    obtain ⟨a, ha, -, rfl⟩ := mem_clip.1 hb
    exact ⟨a, ha, hstart, (lt_min_iff.1 hstop).1⟩
  · rintro ⟨a, ha, hstart, hstop⟩
    exact ⟨cutAt n a, mem_clip.2 ⟨a, ha, hstart.trans_lt hx, rfl⟩, hstart, lt_min hstop hx⟩

/-- Below the bound the same is covered when the intervals are cut short before they are swept. -/
theorem covers_sweep_clip {n x : α} (hx : x < n) (l : List (α × α)) :
    Covers (sweep (clip n l)) x ↔ Covers (sweep l) x := by
  have hsweep : sweep (clip n l) = clip n (sweep l) := by
    rw [sweep, insertionSort_clip]
    exact choose_clip n (List.pairwise_insertionSort First l) none
  rw [hsweep, covers_clip hx]

end Intervals
