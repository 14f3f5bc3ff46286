import Mathlib.Tactic

/-!
# Peeling computations that may fail

What a successful computation did, one bind at a time.
-/

namespace Result

universe u

variable {ε ε' : Type*} {α β σ : Type u}

theorem bind_eq_ok {x : Except ε α} {f : α → Except ε β} {b : β} :
    (x >>= f) = .ok b ↔ ∃ a, x = .ok a ∧ f a = .ok b := by
  cases x with
  | error e => simp [bind, Except.bind]
  | ok a => simp [bind, Except.bind]

theorem mapError_eq_ok {x : Except ε α} {f : ε → ε'} {a : α} :
    x.mapError f = .ok a ↔ x = .ok a := by
  cases x with
  | error e => simp [Except.mapError]
  | ok a => simp [Except.mapError]

/-- A list decodes when every element does. -/
theorem mapM_eq_ok {f : α → Except ε β} {l : List α} {bs : List β} :
    l.mapM f = .ok bs ↔ List.Forall₂ (fun a b => f a = .ok b) l bs := by
  induction l generalizing bs with
  | nil =>
    rw [List.mapM_nil, List.forall₂_nil_left_iff]
    constructor
    · intro h
      cases h
      rfl
    · rintro rfl
      rfl
  | cons a l ih =>
    rw [List.mapM_cons, bind_eq_ok, List.forall₂_cons_left_iff]
    constructor
    · rintro ⟨b, hb, hbind⟩
      obtain ⟨rest, hrest, hpure⟩ := bind_eq_ok.1 hbind
      cases hpure
      exact ⟨b, rest, hb, ih.1 hrest, rfl⟩
    · rintro ⟨b, rest, hb, hrest, rfl⟩
      exact ⟨b, hb, bind_eq_ok.2 ⟨rest, ih.2 hrest, rfl⟩⟩

theorem exists_of_mapM {f : α → Except ε β} {l : List α} {bs : List β} (h : l.mapM f = .ok bs)
    {a : α} (ha : a ∈ l) : ∃ b ∈ bs, f a = .ok b := by
  have hall := mapM_eq_ok.1 h
  induction hall with
  | nil => cases ha
  | @cons a' b l bs hab hrest ih =>
    rcases List.mem_cons.1 ha with rfl | ha
    · exact ⟨b, List.mem_cons_self, hab⟩
    · obtain ⟨c, hc, hac⟩ := ih (mapM_eq_ok.2 hrest) ha
      exact ⟨c, List.mem_cons_of_mem _ hc, hac⟩

theorem forM_eq_ok {f : α → Except ε PUnit} {l : List α} :
    l.forM f = .ok ⟨⟩ ↔ ∀ a ∈ l, f a = .ok ⟨⟩ := by
  induction l with
  | nil =>
    constructor
    · intro _
      simp
    · intro _
      rfl
  | cons a l ih =>
    show (f a >>= fun _ => l.forM f) = .ok ⟨⟩ ↔ _
    rw [bind_eq_ok, List.forall_mem_cons, ← ih]
    constructor
    · rintro ⟨_, ha, hl⟩
      exact ⟨ha, hl⟩
    · rintro ⟨ha, hl⟩
      exact ⟨_, ha, hl⟩

theorem foldlM_cons_eq_ok {f : σ → α → Except ε σ} {s t : σ} {a : α} {l : List α} :
    (a :: l).foldlM f s = .ok t ↔ ∃ r, f s a = .ok r ∧ l.foldlM f r = .ok t := by
  rw [List.foldlM_cons, bind_eq_ok]

/-- What every successful step keeps holds at the end of a successful loop. -/
theorem foldlM_invariant {f : σ → α → Except ε σ} {P : σ → Prop} {l : List α}
    (hstep : ∀ s, ∀ a ∈ l, ∀ t, P s → f s a = .ok t → P t) {s t : σ} (hs : P s)
    (h : l.foldlM f s = .ok t) : P t := by
  induction l generalizing s with
  | nil =>
    cases h
    exact hs
  | cons a l ih =>
    obtain ⟨r, hr, hrest⟩ := foldlM_cons_eq_ok.1 h
    exact ih (fun s a ha => hstep s a (List.mem_cons_of_mem _ ha))
      (hstep s a List.mem_cons_self r hs hr) hrest

/-- In a successful loop each element had its turn. -/
theorem exists_step_of_foldlM {f : σ → α → Except ε σ} {l : List α} {s t : σ}
    (h : l.foldlM f s = .ok t) {a : α} (ha : a ∈ l) :
    ∃ r r', ∃ rest : List α, f r a = .ok r' ∧ rest.foldlM f r' = .ok t := by
  induction l generalizing s with
  | nil => cases ha
  | cons b l ih =>
    obtain ⟨r, hr, hrest⟩ := foldlM_cons_eq_ok.1 h
    rcases List.mem_cons.1 ha with rfl | ha
    · exact ⟨s, r, l, hr, hrest⟩
    · exact ih hrest ha

/-! ### Success -/

@[simp] theorem isOk_error (e : ε) : (Except.error e : Except ε α).isOk = false := rfl

@[simp] theorem isOk_ok (a : α) : (Except.ok a : Except ε α).isOk = true := rfl

theorem isOk_iff {x : Except ε α} : x.isOk = true ↔ ∃ a, x = .ok a := by
  cases x with
  | error e => simp
  | ok a => simp
/-- What follows does not depend on the value. -/
theorem isOk_bind_of {x : Except ε α} {f : α → Except ε β} {P : Prop}
    (h : ∀ a, x = .ok a → ((f a).isOk = true ↔ P)) :
    (x >>= f).isOk = true ↔ x.isOk = true ∧ P := by
  cases x with
  | error e => simp [bind, Except.bind]
  | ok a => simp [bind, Except.bind, h a rfl]

@[simp] theorem isOk_map {x : Except ε α} {f : α → β} : (x.map f).isOk = x.isOk := by
  cases x with
  | error e => rfl
  | ok a => rfl

theorem isOk_mapM {f : α → Except ε β} {l : List α} :
    (l.mapM f).isOk = true ↔ ∀ a ∈ l, (f a).isOk = true := by
  induction l with
  | nil =>
    rw [List.mapM_nil]
    exact iff_of_true rfl fun a ha => nomatch ha
  | cons a l ih =>
    rw [List.mapM_cons, isOk_bind_of (P := ∀ a ∈ l, (f a).isOk = true), List.forall_mem_cons]
    intro b _
    rw [isOk_bind_of (P := True), and_true, ih]
    exact fun bs _ => iff_of_true rfl trivial

/-- A loop whose steps succeed or not whatever the state. -/
theorem isOk_foldlM {f : σ → α → Except ε σ} {P : α → Prop}
    (h : ∀ s a, (f s a).isOk = true ↔ P a) {l : List α} {s : σ} :
    (l.foldlM f s).isOk = true ↔ ∀ a ∈ l, P a := by
  induction l generalizing s with
  | nil =>
    rw [List.foldlM_nil]
    exact iff_of_true rfl fun a ha => nomatch ha
  | cons a l ih =>
    rw [List.foldlM_cons, isOk_bind_of fun _ _ => ih, h, List.forall_mem_cons]

/-! ### Values that may be absent -/

theorem toOption_eq_some {x : Except ε α} {a : α} :
    x.toOption = some a ↔ x = .ok a := by
  cases x with
  | error e => simp [Except.toOption]
  | ok b => simp [Except.toOption]

theorem mapM_eq_none {f : α → Option β} {l : List α} :
    l.mapM f = none ↔ ∃ a ∈ l, f a = none := by
  induction l with
  | nil => simp
  | cons a l ih =>
    rw [List.mapM_cons, List.exists_mem_cons_iff, ← ih]
    cases f a with
    | none => simp
    | some b => cases List.mapM f l <;> simp

theorem mapM_eq_some {f : α → Option β} {l : List α} {bs : List β} :
    l.mapM f = some bs ↔ l.map f = bs.map some := by
  induction l generalizing bs with
  | nil => cases bs <;> simp
  | cons a l ih =>
    rw [List.mapM_cons, List.map_cons]
    cases bs with
    | nil => cases f a <;> cases hrest : List.mapM f l <;> simp
    | cons b bs =>
      rw [List.map_cons, List.cons.injEq, ← ih]
      cases f a with
      | none => simp
      | some b' => cases List.mapM f l <;> simp

theorem mem_mapM {f : α → Option β} {l : List α} {bs : List β}
    (h : l.mapM f = some bs) {b : β} : b ∈ bs ↔ ∃ a ∈ l, f a = some b := by
  rw [mapM_eq_some] at h
  have hsome : some b ∈ bs.map some ↔ b ∈ bs := by simp
  rw [← hsome, ← h, List.mem_map]

end Result
