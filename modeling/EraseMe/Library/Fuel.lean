import Mathlib.Tactic

/-!
# Loops with fuel that read a list

What a loop with fuel returns does not depend on the fuel once there is enough of it
(`Fuel.stable`): it is enough that a turn, on what is left to do, calls the loop only where less is
left.  A reader that moves on leaves a proper end of its list (`Past`).
-/

namespace Fuel

/-- More fuel than there is left to do changes nothing. -/
theorem stable {σ α : Type*} (left : σ → ℕ) (run : ℕ → σ → α)
    (hdone : ∀ k x, left x = 0 → run k x = run 0 x)
    (hturn : ∀ k l x, left x ≠ 0 → (∀ y, left y < left x → run k y = run l y) →
      run (k + 1) x = run (l + 1) x) {fuel : ℕ} {x : σ} (h : left x ≤ fuel) :
    run fuel x = run (left x) x := by
  induction hn : left x using Nat.strong_induction_on generalizing fuel x with
  | _ n ih =>
    subst hn
    by_cases hzero : left x = 0
    · rw [hzero]
      exact hdone fuel x hzero
    obtain ⟨k, rfl⟩ : ∃ k, fuel = k + 1 := ⟨fuel - 1, by omega⟩
    obtain ⟨l, hl⟩ : ∃ l, left x = l + 1 := ⟨left x - 1, by omega⟩
    rw [hl]
    refine hturn k l x hzero fun y hy => ?_
    exact (ih (left y) hy (by omega) rfl).trans (ih (left y) hy (by omega) rfl).symm

end Fuel

/-- A reader has moved on within its list. -/
def Past {α : Type*} (rest s : List α) : Prop := rest <:+ s ∧ rest.length < s.length

namespace Past

variable {α : Type*} {a b s : List α}

theorem ofCons (x : α) (s : List α) : Past s (x :: s) := ⟨List.suffix_cons x s, by simp⟩

theorem trans_suffix (h : Past a b) (h' : b <:+ s) : Past a s :=
  ⟨h.1.trans h', h.2.trans_le h'.length_le⟩

theorem of_suffix (h : a <:+ b) (h' : Past b s) : Past a s :=
  ⟨h.trans h'.1, h.length_le.trans_lt h'.2⟩

theorem trans (h : Past a b) (h' : Past b s) : Past a s := of_suffix h.1 h'

theorem cons (h : Past a s) (x : α) : Past a (x :: s) := h.trans (ofCons x s)

theorem of_drop {n : ℕ} (h : Past a (s.drop n)) : Past a s := h.trans_suffix (List.drop_suffix n s)

theorem drop {x : α} {n : ℕ} (hn : n ≠ 0) : Past ((x :: s).drop n) (x :: s) := by
  refine ⟨List.drop_suffix _ _, ?_⟩
  rw [List.length_drop, List.length_cons]
  omega

theorem tail {x : α} (h : s.head? = some x) : Past s.tail s := by
  cases s with
  | nil => cases h
  | cons y s => exact ofCons y s

end Past
