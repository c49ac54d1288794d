import Otpasswd.Common.Num

/-!
# Otpasswd.Common.NumOverflow — the overflow flag

The static flag of `num.c` is raised exactly when the true result of an
addition, a subtraction or a multiplication does not fit, and no operation
takes it back.

Main results: `num_overflow_exact`, and `num_div_i_exact` for the division,
which raises no flag.
-/

namespace Otpasswd

/-! ## Addition and subtraction -/

/-- The value of a difference does not depend on the flag either. -/
theorem numSubO_fst (ov : Bool) (a b : Num) : (numSubO ov a b).1 = numSub a b := by
  simp only [numSub, numSubO]
  split <;> rfl

/-- The carry out of the high word, of the sum of the high words or of the
carry of the low ones. -/
theorem numAddO_snd (ov : Bool) (a b : Num) :
    (numAddO ov a b).2 = true ↔ ov = true ∨ 2 ^ 128 ≤ a.toNat + b.toNat := by
  have h1 := a.hi.isLt
  have h2 := a.lo.isLt
  have h3 := b.hi.isLt
  have h4 := b.lo.isLt
  simp only [numAddO]
  split
  · rename_i h
    rw [BitVec.lt_def, BitVec.toNat_add] at h
    simp only [Bool.or_eq_true, decide_eq_true_eq, BitVec.lt_def, BitVec.toNat_add, Num.toNat,
      BitVec.ofNat_eq_ofNat, BitVec.toNat_ofNat]
    cases ov
    · simp
      omega
    · simp
  · rename_i h
    rw [BitVec.lt_def, BitVec.toNat_add] at h
    simp only [Bool.or_eq_true, decide_eq_true_eq, BitVec.lt_def, BitVec.toNat_add, Num.toNat]
    cases ov
    · simp
      omega
    · simp

theorem numSubO_snd (ov : Bool) (a b : Num) :
    (numSubO ov a b).2 = true ↔ ov = true ∨ a.toNat < b.toNat := by
  have h1 := a.hi.isLt
  have h2 := a.lo.isLt
  have h3 := b.hi.isLt
  have h4 := b.lo.isLt
  simp only [numSubO]
  split
  · rename_i h
    rw [BitVec.lt_def, BitVec.toNat_sub] at h
    simp only [Bool.or_eq_true, decide_eq_true_eq, BitVec.lt_def, BitVec.toNat_sub, Num.toNat,
      BitVec.ofNat_eq_ofNat, BitVec.toNat_ofNat]
    cases ov
    · simp
      omega
    · simp
  · rename_i h
    rw [BitVec.lt_def, BitVec.toNat_sub] at h
    simp only [Bool.or_eq_true, decide_eq_true_eq, BitVec.lt_def, BitVec.toNat_sub, Num.toNat]
    cases ov
    · simp
      omega
    · simp

/-! ## Multiplication -/

/-- The loop of `num_mul_i` after `k` iterations: `reply` is the product with
the low `k` bits, `r` the shifted factor, both wrapped, and the two flags say
whether they have been. -/
structure MulInv (ov : Bool) (a : Num) (b : Word64) (k : ℕ) (st : MulSt) : Prop where
  arg1 : st.arg1.toNat = a.toNat / 2 ^ k
  reply : st.reply.toNat = a.toNat % 2 ^ k * b.toNat % 2 ^ 128
  r : st.r.toNat = b.toNat * 2 ^ k % 2 ^ 128
  canOverflow : st.canOverflow = true ↔ 2 ^ 128 ≤ b.toNat * 2 ^ k
  flag : st.ov = true ↔ ov = true ∨ 2 ^ 128 ≤ a.toNat % 2 ^ k * b.toNat

theorem mulInv_init (ov : Bool) (a : Num) (b : Word64) :
    MulInv ov a b 0 ⟨a, numZero, numI b, false, ov⟩ where
  arg1 := by simp
  reply := by simp [Nat.mod_one]
  r := by
    have := b.isLt
    rw [Num.toNat_numI, pow_zero, mul_one, Nat.mod_eq_of_lt (by omega)]
  canOverflow := by
    have := b.isLt
    simp
    omega
  flag := by simp [Nat.mod_one]

theorem MulInv.step {ov : Bool} {a : Num} {b : Word64} {k : ℕ} {st : MulSt}
    (h : MulInv ov a b k st) : MulInv ov a b (k + 1) (numMulStep st) := by
  -- the next bit of the multiplicand
  have hbit : st.arg1.toNat % 2 = a.toNat / 2 ^ k % 2 := by rw [h.arg1]
  have hprod : a.toNat % 2 ^ (k + 1) * b.toNat =
      a.toNat % 2 ^ k * b.toNat + a.toNat / 2 ^ k % 2 * (b.toNat * 2 ^ k) := by
    rw [pow_succ, Nat.mod_mul]
    ring
  have hshift : b.toNat * 2 ^ (k + 1) = 2 * (b.toNat * 2 ^ k) := by
    rw [pow_succ]
    ring
  have hlt := a.toNat_lt
  have htwo : a.toNat / 2 ^ k % 2 < 2 := Nat.mod_lt _ (by decide)
  have hmsb : st.r.hi &&& 0x8000000000000000 ≠ 0 ↔ 2 ^ 127 ≤ st.r.toNat := by
    have hlo := st.r.lo.isLt
    rw [Num.msb_ne_zero, Num.toNat]
    omega
  have hr := h.r
  have hreply := h.reply
  have hcan := h.canOverflow
  have hflag := h.flag
  rw [← hbit] at hprod htwo
  refine ⟨?_, ?_, ?_, ?_, ?_⟩
  · change (numRshift st.arg1).toNat = _
    rw [Num.toNat_numRshift, h.arg1, Nat.div_div_eq_div_mul, pow_succ]
  · rw [numMulStep_reply, hprod, hr, hreply, Nat.mod_add_mod, Nat.add_mod, Nat.mul_mod_mod,
      ← Nat.add_mod]
  · change (numLshift st.r).toNat = _
    rw [Num.toNat_numLshift, hr, hshift, Nat.mul_mod_mod]
  · change (st.canOverflow || decide (st.r.hi &&& 0x8000000000000000 ≠ 0)) = true ↔ _
    rw [Bool.or_eq_true, decide_eq_true_eq, hcan, hmsb, hr, hshift]
    generalize b.toNat * 2 ^ k = q
    omega
  · rw [hprod]
    simp only [numMulStep]
    by_cases hset : st.arg1.lo &&& 1 ≠ 0
    · rw [if_pos hset, (lo_and_one_ne_zero _).mp hset, one_mul, numAddO_snd, Bool.or_eq_true,
        hflag, hcan, hreply, hr]
      generalize a.toNat % 2 ^ k * b.toNat = q, b.toNat * 2 ^ k = q'
      by_cases hov : ov = true
      · simp [hov]
      · simp only [hov, Bool.false_eq_true, false_or]
        omega
    · have h0 : st.arg1.toNat % 2 = 0 := by
        have := (lo_and_one_ne_zero _).not.mp hset
        omega
      rw [if_neg hset, h0, zero_mul, add_zero]
      exact hflag

theorem mulInv_iterate (ov : Bool) (a : Num) (b : Word64) (k : ℕ) :
    MulInv ov a b k (numMulStep^[k] ⟨a, numZero, numI b, false, ov⟩) := by
  induction k with
  | zero => exact mulInv_init ov a b
  | succ k ih =>
    rw [Function.iterate_succ_apply']
    exact ih.step

theorem numMulIo_inv (ov : Bool) (a : Num) (b : Word64) :
    (numMulIo ov a b).1.toNat = a.toNat * b.toNat % 2 ^ 128 ∧
      ((numMulIo ov a b).2 = true ↔ ov = true ∨ 2 ^ 128 ≤ a.toNat * b.toNat) := by
  have h := mulInv_iterate ov a b 128
  have hreply := h.reply
  have hflag := h.flag
  rw [Nat.mod_eq_of_lt a.toNat_lt] at hreply hflag
  exact ⟨hreply, hflag⟩

/-! ## The operations -/

/-- An operation on numbers with the flag before and after it: the result is
the true one, `z`, wrapped, and the flag tells whether it was. -/
def OverflowExact (ov : Bool) (z : ℤ) (r : Num × Bool) : Prop :=
  (r.1.toNat : ℤ) = z % 2 ^ 128 ∧ (r.2 = true ↔ ov = true ∨ ¬ (0 ≤ z ∧ z < 2 ^ 128))

/-- `num_add`, `num_sub` and `num_mul_i` detect overflow exactly, whatever the
flag was before. -/
theorem num_overflow_exact (ov : Bool) (a b : Num) (c : Word64) :
    OverflowExact ov (a.toNat + b.toNat) (numAddO ov a b) ∧
      OverflowExact ov (a.toNat - b.toNat) (numSubO ov a b) ∧
        OverflowExact ov (a.toNat * c.toNat) (numMulIo ov a c) := by
  have ha := a.toNat_lt
  have hb := b.toNat_lt
  refine ⟨⟨?_, ?_⟩, ⟨?_, ?_⟩, ?_, ?_⟩
  · rw [numAddO_fst, Num.toNat_numAdd]
    push_cast
    rfl
  · rw [numAddO_snd]
    refine or_congr_right ?_
    omega
  · rw [numSubO_fst, Num.toNat_numSub]
    omega
  · rw [numSubO_snd]
    refine or_congr_right ?_
    omega
  · rw [(numMulIo_inv ov a c).1]
    push_cast
    rfl
  · rw [(numMulIo_inv ov a c).2]
    refine or_congr_right ?_
    norm_cast
    generalize a.toNat * c.toNat = q
    omega

/-! ## Division -/

/-- `num_div_i` is exact for every divisor but zero, also where the running
remainder needs a 65th bit. -/
theorem num_div_i_exact (n : Num) (d : Word64) (hd : 1 ≤ d.toNat) :
    (numDivI n d).1.toNat = n.toNat / d.toNat ∧ (numDivI n d).2.toNat = n.toNat % d.toNat ∧
      (numDivI n d).1.toNat * d.toNat + (numDivI n d).2.toNat = n.toNat ∧
        (numDivI n d).2.toNat < d.toNat := by
  have hne : d ≠ 0 := by
    rintro rfl
    exact absurd hd (by decide)
  obtain ⟨hquot, hrem⟩ := numDivI_spec n d hne
  rw [hquot, hrem]
  exact ⟨rfl, rfl, Nat.div_add_mod' _ _, Nat.mod_lt _ hd⟩

/-- A divisor above `2 ^ 63`. -/
theorem num_div_i_exact_huge :
    1 ≤ (0xFFFFFFFFFFFFFFFF : Word64).toNat ∧
      (numDivI ⟨0x123456789ABCDEF0, 7⟩ 0xFFFFFFFFFFFFFFFF).2.toNat < 2 ^ 64 - 1 :=
  ⟨by decide, (num_div_i_exact ⟨0x123456789ABCDEF0, 7⟩ 0xFFFFFFFFFFFFFFFF (by decide)).2.2.2⟩

end Otpasswd
