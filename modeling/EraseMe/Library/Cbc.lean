import Mathlib.Tactic

/-!
# Cipher block chaining with PKCS7 padding

Over any cipher of blocks of `n` octets.  `decrypt_encrypt` is the round trip.
-/

namespace Cbc

/-- Blocks and texts. -/
abbrev Octets := List UInt8

/-- Octet by octet. -/
def xor (a b : Octets) : Octets := List.zipWith (· ^^^ ·) a b

/-- Fill the last block with octets that count themselves; a full block gets another one. -/
def pad (n : ℕ) (s : Octets) : Octets :=
  s ++ List.replicate (n - s.length % n) (UInt8.ofNat (n - s.length % n))

/-- Take the padding off. -/
def unpad (n : ℕ) (s : Octets) : Option Octets :=
  match s.getLast? with
  | none => none
  | some b =>
      if b.toNat ≠ 0 ∧ b.toNat ≤ n ∧ s.drop (s.length - b.toNat) = List.replicate b.toNat b then
        some (s.take (s.length - b.toNat))
      else none

/-- The first `k` blocks. -/
def blocks (n : ℕ) : ℕ → Octets → List Octets
  | 0, _ => []
  | k + 1, s => s.take n :: blocks n k (s.drop n)

/-- Chain the blocks. -/
def encryptBlocks (E : Octets → Octets) : Octets → List Octets → List Octets
  | _, [] => []
  | previous, p :: ps => E (xor p previous) :: encryptBlocks E (E (xor p previous)) ps

/-- Undo the chain. -/
def decryptBlocks (D : Octets → Octets) : Octets → List Octets → List Octets
  | _, [] => []
  | previous, c :: cs => xor (D c) previous :: decryptBlocks D c cs

/-- Pad and encrypt. -/
def encrypt (n : ℕ) (E : Octets → Octets) (iv s : Octets) : Octets :=
  (encryptBlocks E iv (blocks n ((pad n s).length / n) (pad n s))).flatten

/-- Decrypt whole blocks and take the padding off. -/
def decrypt (n : ℕ) (D : Octets → Octets) (iv s : Octets) : Option Octets :=
  if s.length % n = 0 then unpad n (decryptBlocks D iv (blocks n (s.length / n) s)).flatten
  else none

variable {n : ℕ} {E D : Octets → Octets}

/-- `D` undoes `E` on blocks, and a block goes to a block. -/
structure Inverse (n : ℕ) (E D : Octets → Octets) : Prop where
  left_inv : ∀ b, b.length = n → D (E b) = b
  length_eq : ∀ b, b.length = n → (E b).length = n

theorem xor_xor {a b : Octets} (h : a.length = b.length) : xor (xor a b) b = a := by
  induction a generalizing b with
  | nil => rfl
  | cons x a ih =>
    cases b with
    | nil => cases h
    | cons y b =>
      have hxy : x ^^^ y ^^^ y = x := by
        rw [UInt8.xor_assoc, UInt8.xor_self, UInt8.xor_zero]
      simp only [xor, List.zipWith_cons_cons, hxy, List.cons.injEq, true_and]
      exact ih (Nat.succ.inj h)

theorem length_xor {a b : Octets} (h : a.length = b.length) : (xor a b).length = a.length := by
  simp [xor, h]

/-! ### Padding -/

theorem length_pad (hn : 0 < n) (s : Octets) : (pad n s).length = n * (s.length / n + 1) := by
  have hmod := Nat.mod_lt s.length hn
  have hdiv := Nat.div_add_mod s.length n
  simp only [pad, List.length_append, List.length_replicate, Nat.mul_add, Nat.mul_one]
  omega

theorem unpad_pad (hn : 0 < n) (hn' : n < 256) (s : Octets) : unpad n (pad n s) = some s := by
  have hmod := Nat.mod_lt s.length hn
  have hk : (UInt8.ofNat (n - s.length % n)).toNat = n - s.length % n :=
    UInt8.toNat_ofNat_of_lt' (lt_of_le_of_lt (Nat.sub_le _ _) hn')
  have hlast : (pad n s).getLast? = some (UInt8.ofNat (n - s.length % n)) := by
    rw [pad, List.getLast?_append_of_ne_nil _ (by simp; omega), List.getLast?_replicate, if_neg]
    omega
  have hlen : (pad n s).length - (n - s.length % n) = s.length := by
    simp [pad]
  unfold unpad
  rw [hlast]
  simp only [hk, hlen]
  rw [if_pos]
  · simp [pad]
  · refine ⟨by omega, by omega, ?_⟩
    simp [pad]

/-! ### Blocks -/

theorem flatten_blocks (k : ℕ) {s : Octets} (h : s.length = n * k) :
    (blocks n k s).flatten = s := by
  induction k generalizing s with
  | zero =>
    rw [Nat.mul_zero, List.length_eq_zero_iff] at h
    simp [blocks, h]
  | succ k ih =>
    rw [blocks, List.flatten_cons, ih, List.take_append_drop]
    rw [List.length_drop, h, Nat.mul_add, Nat.mul_one, Nat.add_sub_cancel]

theorem length_of_mem_blocks (k : ℕ) {s b : Octets} (h : s.length = n * k)
    (hb : b ∈ blocks n k s) : b.length = n := by
  induction k generalizing s with
  | zero => cases hb
  | succ k ih =>
    rw [Nat.mul_add, Nat.mul_one] at h
    rcases List.mem_cons.1 hb with rfl | hb
    · rw [List.length_take, h]
      omega
    · exact ih (by rw [List.length_drop, h, Nat.add_sub_cancel]) hb

theorem length_blocks (k : ℕ) (s : Octets) : (blocks n k s).length = k := by
  induction k generalizing s with
  | zero => rfl
  | succ k ih => rw [blocks, List.length_cons, ih]

theorem length_flatten {bs : List Octets} (h : ∀ b ∈ bs, b.length = n) :
    bs.flatten.length = n * bs.length := by
  induction bs with
  | nil => simp
  | cons b bs ih =>
    rw [List.flatten_cons, List.length_append, h b List.mem_cons_self,
      ih fun b hb => h b (List.mem_cons_of_mem _ hb), List.length_cons, Nat.mul_add, Nat.mul_one,
      Nat.add_comm]

theorem blocks_flatten {bs : List Octets} (h : ∀ b ∈ bs, b.length = n) :
    blocks n bs.length bs.flatten = bs := by
  induction bs with
  | nil => rfl
  | cons b bs ih =>
    have hb := h b List.mem_cons_self
    rw [List.length_cons, blocks, List.flatten_cons, List.take_left' hb, List.drop_left' hb,
      ih fun b hb => h b (List.mem_cons_of_mem _ hb)]

theorem length_encryptBlocks (iv : Octets) (ps : List Octets) :
    (encryptBlocks E iv ps).length = ps.length := by
  induction ps generalizing iv with
  | nil => rfl
  | cons p ps ih => rw [encryptBlocks, List.length_cons, ih, List.length_cons]

theorem length_of_mem_encryptBlocks (h : Inverse n E D) {iv : Octets} (hiv : iv.length = n)
    {ps : List Octets} (hps : ∀ p ∈ ps, p.length = n) {c : Octets}
    (hc : c ∈ encryptBlocks E iv ps) : c.length = n := by
  induction ps generalizing iv with
  | nil => cases hc
  | cons p ps ih =>
    have hp := hps p List.mem_cons_self
    have hfirst : (E (xor p iv)).length = n := h.length_eq _ (by rw [length_xor (hp.trans hiv.symm), hp])
    rcases List.mem_cons.1 hc with rfl | hc
    · exact hfirst
    · exact ih hfirst (fun p hp => hps p (List.mem_cons_of_mem _ hp)) hc

theorem decryptBlocks_encryptBlocks (h : Inverse n E D) {iv : Octets} (hiv : iv.length = n)
    {ps : List Octets} (hps : ∀ p ∈ ps, p.length = n) :
    decryptBlocks D iv (encryptBlocks E iv ps) = ps := by
  induction ps generalizing iv with
  | nil => rfl
  | cons p ps ih =>
    have hp := hps p List.mem_cons_self
    have hxor : (xor p iv).length = n := by rw [length_xor (hp.trans hiv.symm), hp]
    rw [encryptBlocks, decryptBlocks, h.left_inv _ hxor, xor_xor (hp.trans hiv.symm),
      ih (h.length_eq _ hxor) fun p hp => hps p (List.mem_cons_of_mem _ hp)]

/-! ### The round trip -/

section

variable (hn : 0 < n) (h : Inverse n E D) {iv : Octets} (hiv : iv.length = n) (s : Octets)

include hn h hiv

theorem length_encrypt : (encrypt n E iv s).length = n * (s.length / n + 1) := by
  have hpad := length_pad hn s
  have hdiv : (pad n s).length / n = s.length / n + 1 := by
    rw [hpad, Nat.mul_div_cancel_left _ hn]
  rw [encrypt, length_flatten fun c hc => length_of_mem_encryptBlocks h hiv
    (fun p hp => length_of_mem_blocks _ (hdiv ▸ hpad) hp) hc, length_encryptBlocks, length_blocks,
    hdiv]

/-- Decryption undoes encryption. -/
theorem decrypt_encrypt (hn' : n < 256) : decrypt n D iv (encrypt n E iv s) = some s := by
  have hpad := length_pad hn s
  have hdiv : (pad n s).length / n = s.length / n + 1 := by
    rw [hpad, Nat.mul_div_cancel_left _ hn]
  have hblocks : ∀ p ∈ blocks n ((pad n s).length / n) (pad n s), p.length = n :=
    fun p hp => length_of_mem_blocks _ (hdiv ▸ hpad) hp
  have hcipher : ∀ c ∈ encryptBlocks E iv (blocks n ((pad n s).length / n) (pad n s)), c.length = n :=
    fun c hc => length_of_mem_encryptBlocks h hiv hblocks hc
  have hlen := length_encrypt hn h hiv s
  have hcount : (encrypt n E iv s).length / n =
      (encryptBlocks E iv (blocks n ((pad n s).length / n) (pad n s))).length := by
    rw [hlen, Nat.mul_div_cancel_left _ hn, length_encryptBlocks, length_blocks, hdiv]
  rw [decrypt, if_pos (by rw [hlen, Nat.mul_mod_right]), hcount]
  conv_lhs => rw [encrypt]
  rw [blocks_flatten hcipher, decryptBlocks_encryptBlocks h hiv hblocks,
    flatten_blocks _ (hdiv ▸ hpad), unpad_pad hn hn']

end

end Cbc
