import Mathlib.Data.BitVec
import Mathlib.Data.Nat.Bitwise
import Mathlib.Tactic.Positivity
import Mathlib.Tactic.Ring
import Mathlib.Tactic.Set

/-!
# Otpasswd.Common.Num — the 128-bit numbers of `num.c`

A `num_t` is a pair of 64-bit halves. The file keeps the word-level
definitions of the source and gives each of them its meaning on `Num.toNat`:
addition and multiplication modulo `2 ^ 128`, comparison, masking, and the
128-step shift-and-subtract division.

The source keeps one static overflow flag that only the decimal importer
reads; the operations that can raise it take it and give it back (`numAddO`,
`numSubO`, `numMulIo`), and `numAdd`, `numSub`, `numMulI` are their values.
-/

namespace Otpasswd

/-- `unsigned int` and `int` as 32-bit patterns. -/
abbrev Word32 := BitVec 32

/-- `uint64_t`, and `intmax_t` as its bit pattern. -/
abbrev Word64 := BitVec 64

/-- `num_t`: an unsigned 128-bit number in two halves. -/
structure Num where
  hi : Word64
  lo : Word64
deriving DecidableEq, Repr

namespace Num

/-- The number the two halves stand for. -/
def toNat (n : Num) : ℕ := n.hi.toNat * 2 ^ 64 + n.lo.toNat

theorem toNat_lt (n : Num) : n.toNat < 2 ^ 128 := by
  have h1 := n.hi.isLt
  have h2 := n.lo.isLt
  unfold toNat
  omega

@[ext] theorem ext_toNat {a b : Num} (h : a.toNat = b.toNat) : a = b := by
  obtain ⟨ah, al⟩ := a
  obtain ⟨bh, bl⟩ := b
  have h1 := al.isLt
  have h2 := bl.isLt
  simp only [toNat] at h
  have hhi : ah = bh := BitVec.eq_of_toNat_eq (by omega)
  have hlo : al = bl := BitVec.eq_of_toNat_eq (by omega)
  rw [hhi, hlo]

end Num

/-! ## Setters and bit operations -/

def numII (arg1 arg2 : Word64) : Num := ⟨arg1, arg2⟩

def numI (x : Word64) : Num := numII 0 x

def numZero : Num := numII 0 0

def numLshift (arg : Num) : Num :=
  { hi := (arg.hi <<< 1) ||| (arg.lo >>> 63)
    lo := arg.lo <<< 1 }

def numRshift (arg : Num) : Num :=
  { lo := (arg.lo >>> 1) ||| (arg.hi <<< 63)
    hi := arg.hi >>> 1 }

def numAnd (arg1 arg2 : Num) : Num :=
  { hi := arg1.hi &&& arg2.hi
    lo := arg1.lo &&& arg2.lo }

/-! ## Comparisons -/

def numCmpI (arg1 : Num) (arg2 : Word64) : ℤ :=
  if arg1.hi ≠ 0 ∨ arg2 < arg1.lo then 1
  else if arg1.lo = arg2 then 0
  else -1

def numCmp (arg1 arg2 : Num) : ℤ :=
  if arg2.hi < arg1.hi then 1
  else if arg1.hi < arg2.hi then -1
  else if arg2.lo < arg1.lo then 1
  else if arg1.lo < arg2.lo then -1
  else 0

/-! ## Arithmetic -/

/-- `num_add`, with the overflow flag before and after the call. -/
def numAddO (ov : Bool) (arg1 arg2 : Num) : Num × Bool :=
  let lo := arg1.lo + arg2.lo
  let hi := arg1.hi + arg2.hi
  let ov := ov || decide (hi < arg1.hi)
  if lo < arg1.lo then
    (⟨hi + 1, lo⟩, ov || decide (hi + 1 < 1))
  else
    (⟨hi, lo⟩, ov)

def numAdd (arg1 arg2 : Num) : Num := (numAddO false arg1 arg2).1

/-- `num_sub`, with the overflow flag before and after the call. -/
def numSubO (ov : Bool) (arg1 arg2 : Num) : Num × Bool :=
  let lo := arg1.lo - arg2.lo
  let hi := arg1.hi - arg2.hi
  let ov := ov || decide (arg1.hi < hi)
  if arg1.lo < lo then
    (⟨hi - 1, lo⟩, ov || decide (hi < hi - 1))
  else
    (⟨hi, lo⟩, ov)

def numSub (arg1 arg2 : Num) : Num := (numSubO false arg1 arg2).1

/-- The variables of the `num_mul_i` loop. -/
structure MulSt where
  arg1 : Num
  reply : Num
  r : Num
  canOverflow : Bool
  ov : Bool

/-- One iteration of the `num_mul_i` loop. -/
def numMulStep (st : MulSt) : MulSt :=
  let (reply, ov) :=
    if st.arg1.lo &&& 1 ≠ 0 then numAddO (st.ov || st.canOverflow) st.reply st.r
    else (st.reply, st.ov)
  { arg1 := numRshift st.arg1
    reply := reply
    r := numLshift st.r
    canOverflow := st.canOverflow || decide (st.r.hi &&& 0x8000000000000000 ≠ 0)
    ov := ov }

def numMulIo (ov : Bool) (arg1 : Num) (arg2 : Word64) : Num × Bool :=
  let st := numMulStep^[128] ⟨arg1, numZero, numI arg2, false, ov⟩
  (st.reply, st.ov)

def numMulI (arg1 : Num) (arg2 : Word64) : Num := (numMulIo false arg1 arg2).1

/-- One iteration of the `num_div_i` loop. The source's `overflow` is the
bit shifted out of the 64-bit remainder; it is set and used up within one
iteration. -/
def numDivStep (divby : Word64) (st : Num × Word64) : Num × Word64 :=
  let (result, remainder) := st
  let overflow := remainder &&& 0x8000000000000000 ≠ 0
  let remainder := remainder <<< 1
  let remainder := if result.hi &&& 0x8000000000000000 ≠ 0 then remainder ||| 1 else remainder
  let result := numLshift result
  if overflow then
    ({ result with lo := result.lo ||| 1 }, 0xFFFFFFFFFFFFFFFF - divby + 1 + remainder)
  else if divby ≤ remainder then
    ({ result with lo := result.lo ||| 1 }, remainder - divby)
  else
    (result, remainder)

/-- `num_div_i`: the quotient it stores and the remainder it returns. -/
def numDivI (divwhat : Num) (divby : Word64) : Num × Word64 :=
  (numDivStep divby)^[128] (divwhat, 0)

def numAddI (a : Num) (b : Word64) : Num := numAdd a (numI b)

def numSubI (a : Num) (b : Word64) : Num := numSub a (numI b)

/-! ## What the operations compute -/

namespace Num

@[simp] theorem toNat_numII (a b : Word64) : (numII a b).toNat = a.toNat * 2 ^ 64 + b.toNat := rfl

@[simp] theorem toNat_numI (x : Word64) : (numI x).toNat = x.toNat := by
  simp [numI, toNat, numII]

@[simp] theorem toNat_numZero : numZero.toNat = 0 := by
  simp [numZero, toNat, numII]

/-- The top bit of a 64-bit word, as a number. -/
theorem shiftRight_63 (x : Word64) : (x >>> 63).toNat = x.toNat / 2 ^ 63 := by
  simp [BitVec.toNat_ushiftRight, Nat.shiftRight_eq_div_pow]

theorem msb_ne_zero (x : Word64) : x &&& 0x8000000000000000 ≠ 0 ↔ 2 ^ 63 ≤ x.toNat := by
  have hx := x.isLt
  have hmask : (x &&& 0x8000000000000000).toNat = (x.toNat / 2 ^ 63) * 2 ^ 63 := by
    rw [BitVec.toNat_and]
    have h := Nat.and_two_pow x.toNat 63
    have hb : (x.toNat.testBit 63).toNat = x.toNat / 2 ^ 63 := by
      rw [Nat.testBit_eq_decide_div_mod_eq]
      have : x.toNat / 2 ^ 63 < 2 := by omega
      rcases Nat.lt_or_ge (x.toNat / 2 ^ 63) 1 with h0 | h1
      · have h0' : x.toNat / 2 ^ 63 = 0 := by omega
        rw [h0']
        rfl
      · have h1' : x.toNat / 2 ^ 63 = 1 := by omega
        rw [h1']
        rfl
    rw [hb] at h
    simpa [Nat.mul_comm] using h
  constructor
  · intro h
    by_contra hlt
    apply h
    apply BitVec.eq_of_toNat_eq
    rw [hmask]
    have h0 : x.toNat / 2 ^ 63 = 0 := by omega
    rw [h0]
    rfl
  · intro h h0
    have h1 := congrArg BitVec.toNat h0
    rw [hmask] at h1
    simp at h1
    omega

/-- Or-ing a bit into an even word adds it. -/
theorem toNat_shiftLeft_or (x y : Word64) (hy : y.toNat < 2) :
    ((x <<< 1) ||| y).toNat = 2 * x.toNat % 2 ^ 64 + y.toNat := by
  have hx := x.isLt
  have hsl : (x <<< 1).toNat = (x.toNat % 2 ^ 63) <<< 1 := by
    rw [BitVec.toNat_shiftLeft]
    simp only [Nat.shiftLeft_eq]
    omega
  rw [BitVec.toNat_or, hsl, ← Nat.shiftLeft_add_eq_or_of_lt (by simpa using hy)]
  simp only [Nat.shiftLeft_eq]
  omega

@[simp] theorem toNat_numLshift (n : Num) : (numLshift n).toNat = 2 * n.toNat % 2 ^ 128 := by
  have h1 := n.hi.isLt
  have h2 := n.lo.isLt
  have hb : (n.lo >>> 63).toNat < 2 := by
    rw [shiftRight_63]
    omega
  have hlo : (n.lo <<< 1).toNat = 2 * n.lo.toNat % 2 ^ 64 := by
    simp [BitVec.toNat_shiftLeft, Nat.shiftLeft_eq, Nat.mul_comm]
  simp only [toNat, numLshift, toNat_shiftLeft_or _ _ hb, shiftRight_63, hlo]
  omega

@[simp] theorem toNat_numRshift (n : Num) : (numRshift n).toNat = n.toNat / 2 := by
  have h1 := n.hi.isLt
  have h2 := n.lo.isLt
  have hhi : (n.hi >>> 1).toNat = n.hi.toNat / 2 := by
    simp [BitVec.toNat_ushiftRight, Nat.shiftRight_eq_div_pow]
  have hlo : ((n.lo >>> 1) ||| (n.hi <<< 63)).toNat =
      (n.hi.toNat % 2) * 2 ^ 63 + n.lo.toNat / 2 := by
    have hsl : (n.hi <<< 63).toNat = (n.hi.toNat % 2) <<< 63 := by
      rw [BitVec.toNat_shiftLeft]
      simp only [Nat.shiftLeft_eq]
      omega
    have hsr : (n.lo >>> 1).toNat = n.lo.toNat / 2 := by
      simp [BitVec.toNat_ushiftRight, Nat.shiftRight_eq_div_pow]
    rw [BitVec.toNat_or, hsl, hsr, Nat.or_comm,
      ← Nat.shiftLeft_add_eq_or_of_lt (by omega : n.lo.toNat / 2 < 2 ^ 63)]
    simp only [Nat.shiftLeft_eq]
  simp only [toNat, numRshift, hhi, hlo]
  omega

@[simp] theorem toNat_numAnd (a b : Num) : (numAnd a b).toNat = a.toNat &&& b.toNat := by
  have ha := a.lo.isLt
  have hb := b.lo.isLt
  have hal : a.toNat = a.hi.toNat <<< 64 ||| a.lo.toNat := by
    rw [← Nat.shiftLeft_add_eq_or_of_lt ha, Nat.shiftLeft_eq]
    rfl
  have hbl : b.toNat = b.hi.toNat <<< 64 ||| b.lo.toNat := by
    rw [← Nat.shiftLeft_add_eq_or_of_lt hb, Nat.shiftLeft_eq]
    rfl
  have hr : (numAnd a b).toNat =
      (a.hi.toNat &&& b.hi.toNat) <<< 64 ||| (a.lo.toNat &&& b.lo.toNat) := by
    rw [← Nat.shiftLeft_add_eq_or_of_lt (Nat.and_lt_two_pow _ hb), Nat.shiftLeft_eq]
    simp [toNat, numAnd]
  rw [hr, hal, hbl]
  apply Nat.eq_of_testBit_eq
  intro i
  by_cases hi : i < 64
  · have hi' : ¬ 64 ≤ i := by omega
    simp [Nat.testBit_shiftLeft, hi']
  · have hi' : 64 ≤ i := by omega
    have h1 : a.lo.toNat.testBit i = false :=
      Nat.testBit_lt_two_pow (lt_of_lt_of_le ha (Nat.pow_le_pow_right (by omega) (by omega)))
    have h2 : b.lo.toNat.testBit i = false :=
      Nat.testBit_lt_two_pow (lt_of_lt_of_le hb (Nat.pow_le_pow_right (by omega) (by omega)))
    simp [Nat.testBit_shiftLeft, h1, h2, hi']

end Num

/-- The value of a sum does not depend on the overflow flag. -/
theorem numAddO_fst (ov : Bool) (a b : Num) : (numAddO ov a b).1 = numAdd a b := by
  simp only [numAdd, numAddO]
  split <;> rfl

namespace Num

@[simp] theorem toNat_numAdd (a b : Num) : (numAdd a b).toNat = (a.toNat + b.toNat) % 2 ^ 128 := by
  have h1 := a.hi.isLt
  have h2 := a.lo.isLt
  have h3 := b.hi.isLt
  have h4 := b.lo.isLt
  simp only [numAdd, numAddO]
  split
  · rename_i h
    rw [BitVec.lt_def, BitVec.toNat_add] at h
    simp only [toNat, BitVec.toNat_add, BitVec.ofNat_eq_ofNat, BitVec.toNat_ofNat]
    omega
  · rename_i h
    rw [BitVec.lt_def, BitVec.toNat_add] at h
    simp only [toNat, BitVec.toNat_add]
    omega

@[simp] theorem toNat_numSub (a b : Num) :
    (numSub a b).toNat = (2 ^ 128 + a.toNat - b.toNat) % 2 ^ 128 := by
  have h1 := a.hi.isLt
  have h2 := a.lo.isLt
  have h3 := b.hi.isLt
  have h4 := b.lo.isLt
  simp only [numSub, numSubO]
  split
  · rename_i h
    rw [BitVec.lt_def, BitVec.toNat_sub] at h
    simp only [toNat, BitVec.toNat_sub, BitVec.ofNat_eq_ofNat, BitVec.toNat_ofNat]
    omega
  · rename_i h
    rw [BitVec.lt_def, BitVec.toNat_sub] at h
    simp only [toNat, BitVec.toNat_sub]
    omega

@[simp] theorem toNat_numAddI (a : Num) (b : Word64) :
    (numAddI a b).toNat = (a.toNat + b.toNat) % 2 ^ 128 := by
  simp [numAddI]

@[simp] theorem toNat_numSubI (a : Num) (b : Word64) :
    (numSubI a b).toNat = (2 ^ 128 + a.toNat - b.toNat) % 2 ^ 128 := by
  simp [numSubI]

end Num

theorem numCmp_pos_iff (a b : Num) : 0 < numCmp a b ↔ b.toNat < a.toNat := by
  have h1 := a.hi.isLt
  have h2 := a.lo.isLt
  have h3 := b.hi.isLt
  have h4 := b.lo.isLt
  simp only [numCmp, BitVec.lt_def, Num.toNat]
  split_ifs <;> simp <;> omega

theorem numCmp_neg_iff (a b : Num) : numCmp a b < 0 ↔ a.toNat < b.toNat := by
  have h1 := a.hi.isLt
  have h2 := a.lo.isLt
  have h3 := b.hi.isLt
  have h4 := b.lo.isLt
  simp only [numCmp, BitVec.lt_def, Num.toNat]
  split_ifs <;> simp <;> omega

theorem numCmp_nonneg_iff (a b : Num) : 0 ≤ numCmp a b ↔ b.toNat ≤ a.toNat := by
  rw [← not_lt, numCmp_neg_iff, not_lt]

/-- `num_sgn` is never negative: the numbers are unsigned. -/
theorem numSgn_nonneg (a : Num) : 0 ≤ numCmp a (numI 0) := by
  rw [numCmp_nonneg_iff]
  simp

/-! ## Multiplication -/

/-- The bit that an iteration of the loop looks at. -/
theorem lo_and_one_ne_zero (n : Num) : n.lo &&& 1 ≠ 0 ↔ n.toNat % 2 = 1 := by
  have hand : (n.lo &&& 1).toNat = n.lo.toNat % 2 := by
    rw [BitVec.toNat_and]
    simp
  have hmod : n.toNat % 2 = n.lo.toNat % 2 := by
    simp only [Num.toNat]
    omega
  rw [hmod, Ne, ← BitVec.toNat_inj, hand]
  simp only [BitVec.ofNat_eq_ofNat, BitVec.toNat_ofNat, Nat.zero_mod]
  omega

theorem numMulStep_reply (st : MulSt) :
    (numMulStep st).reply.toNat =
      (st.reply.toNat + st.arg1.toNat % 2 * st.r.toNat) % 2 ^ 128 := by
  simp only [numMulStep]
  split
  · rename_i h
    rw [(lo_and_one_ne_zero _).mp h, numAddO_fst, Num.toNat_numAdd, Nat.one_mul]
  · rename_i h
    have h0 : st.arg1.toNat % 2 = 0 := by
      have := (lo_and_one_ne_zero _).not.mp h
      omega
    rw [h0, Nat.zero_mul, Nat.add_zero, Nat.mod_eq_of_lt st.reply.toNat_lt]

/-- After `k` iterations the reply holds the product with the low `k` bits
of the multiplicand. -/
theorem numMulStep_iterate (k : ℕ) (st : MulSt) :
    (numMulStep^[k] st).reply.toNat =
      (st.reply.toNat + st.arg1.toNat % 2 ^ k * st.r.toNat) % 2 ^ 128 := by
  induction k generalizing st with
  | zero =>
    rw [pow_zero, Nat.mod_one, Nat.zero_mul, Nat.add_zero, Nat.mod_eq_of_lt st.reply.toNat_lt]
    rfl
  | succ k ih =>
    rw [Function.iterate_succ_apply, ih, numMulStep_reply]
    have ha : (numMulStep st).arg1.toNat = st.arg1.toNat / 2 := Num.toNat_numRshift _
    have hr : (numMulStep st).r.toNat = 2 * st.r.toNat % 2 ^ 128 := Num.toNat_numLshift _
    have hsplit : st.arg1.toNat % 2 ^ (k + 1) =
        st.arg1.toNat % 2 + 2 * (st.arg1.toNat / 2 % 2 ^ k) := by
      rw [pow_succ', Nat.mod_mul]
    rw [ha, hr, hsplit, Nat.mod_add_mod, Nat.add_mod, Nat.mul_mod_mod, ← Nat.add_mod]
    apply congrArg (· % 2 ^ 128)
    ring

@[simp] theorem Num.toNat_numMulI (a : Num) (b : Word64) :
    (numMulI a b).toNat = a.toNat * b.toNat % 2 ^ 128 := by
  have hloop : (numMulI a b).toNat =
      (numMulStep^[128] ⟨a, numZero, numI b, false, false⟩).reply.toNat := by
    rw [numMulI, numMulIo]
  rw [hloop, numMulStep_iterate, Num.toNat_numZero, Num.toNat_numI, Nat.zero_add,
    Nat.mod_eq_of_lt a.toNat_lt]

/-! ## Division -/

/-- One iteration on the numbers: the running remainder takes the next bit
of the dividend and gives one bit to the quotient. The branch on the
shifted-out bit is the case `2 ^ 64 ≤ 2 * r + b`, where the 64-bit words
have wrapped. -/
theorem numDivStep_spec (d : Word64) (st : Num × Word64) (h : st.2.toNat < d.toNat) :
    (numDivStep d st).1.toNat =
        2 * st.1.toNat % 2 ^ 128 + (2 * st.2.toNat + st.1.toNat / 2 ^ 127) / d.toNat ∧
      (numDivStep d st).2.toNat = (2 * st.2.toNat + st.1.toNat / 2 ^ 127) % d.toNat := by
  obtain ⟨res, rem⟩ := st
  simp only at h
  have hd := d.isLt
  have h1 := res.hi.isLt
  have h2 := res.lo.isLt
  have htop : res.toNat / 2 ^ 127 = res.hi.toNat / 2 ^ 63 := by
    simp only [Num.toNat]
    omega
  generalize hb : res.hi.toNat / 2 ^ 63 = b at htop
  have hb2 : b < 2 := by omega
  -- the remainder after taking in the next bit
  have hrem : (if res.hi &&& 0x8000000000000000 ≠ 0 then rem <<< 1 ||| 1 else rem <<< 1).toNat =
      2 * rem.toNat % 2 ^ 64 + b := by
    split
    · rename_i hm
      rw [Num.msb_ne_zero] at hm
      rw [Num.toNat_shiftLeft_or _ _ (by simp)]
      simp
      omega
    · rename_i hm
      rw [Num.msb_ne_zero] at hm
      simp only [BitVec.toNat_shiftLeft, Nat.shiftLeft_eq]
      omega
  have hor : ({ numLshift res with lo := (numLshift res).lo ||| 1 } : Num).toNat =
      2 * res.toNat % 2 ^ 128 + 1 := by
    have hshift := Num.toNat_numLshift res
    have hlo : ((numLshift res).lo ||| 1).toNat = (numLshift res).lo.toNat + 1 := by
      have := Num.toNat_shiftLeft_or res.lo 1 (by simp)
      have h0 : (numLshift res).lo.toNat = 2 * res.lo.toNat % 2 ^ 64 := by
        simp [numLshift, BitVec.toNat_shiftLeft, Nat.shiftLeft_eq, Nat.mul_comm]
      rw [h0]
      simpa [numLshift] using this
    simp only [Num.toNat] at hshift ⊢
    omega
  -- a quotient bit and the remainder, from the size of the running value
  have hone (v : ℕ) (hge : d.toNat ≤ v) (hlt : v < 2 * d.toNat) :
      v / d.toNat = 1 ∧ v % d.toNat = v - d.toNat := by
    have hq : v / d.toNat = 1 := Nat.div_eq_of_lt_le (by omega) (by omega)
    refine ⟨hq, ?_⟩
    have := Nat.div_add_mod v d.toNat
    rw [hq] at this
    omega
  rw [htop]
  simp only [numDivStep]
  generalize (if res.hi &&& 0x8000000000000000 ≠ 0 then rem <<< 1 ||| 1 else rem <<< 1) = next
    at hrem ⊢
  split
  · -- the 65th bit is set: the words wrapped
    rename_i hov
    rw [Num.msb_ne_zero] at hov
    obtain ⟨hq, hr⟩ := hone (2 * rem.toNat + b) (by omega) (by omega)
    refine ⟨by rw [hor, hq], ?_⟩
    have hneg : 0xFFFFFFFFFFFFFFFF - d + 1 + next = next - d := by
      have hones : (0xFFFFFFFFFFFFFFFF : Word64) = -1 := by decide
      rw [hones]
      ring
    rw [hr, hneg, BitVec.toNat_sub, hrem]
    omega
  · rename_i hov
    rw [Num.msb_ne_zero] at hov
    rw [Nat.mod_eq_of_lt (by omega)] at hrem
    split
    · rename_i hge
      rw [BitVec.le_def, hrem] at hge
      obtain ⟨hq, hr⟩ := hone (2 * rem.toNat + b) hge (by omega)
      refine ⟨by rw [hor, hq], ?_⟩
      rw [hr, BitVec.toNat_sub, hrem]
      omega
    · rename_i hlt
      rw [BitVec.le_def, hrem, Nat.not_le] at hlt
      refine ⟨?_, ?_⟩
      · rw [Num.toNat_numLshift, Nat.div_eq_of_lt hlt, Nat.add_zero]
      · rw [hrem, Nat.mod_eq_of_lt hlt]

/-- The loop invariant. With `k` iterations to go the result word still holds
`k` bits `U` of the dividend on top of the quotient bits `V` found so far. -/
theorem numDivStep_iterate (d : Word64) (k : ℕ) (hk : k ≤ 128) (st : Num × Word64) (U V : ℕ)
    (hrem : st.2.toNat < d.toNat) (hres : st.1.toNat = U * 2 ^ (128 - k) + V)
    (hV : V < 2 ^ (128 - k)) (hU : U < 2 ^ k) :
    ((numDivStep d)^[k] st).1.toNat = V * 2 ^ k + (st.2.toNat * 2 ^ k + U) / d.toNat ∧
      ((numDivStep d)^[k] st).2.toNat = (st.2.toNat * 2 ^ k + U) % d.toNat := by
  induction k generalizing st U V with
  | zero =>
    have hU0 : U = 0 := by omega
    subst hU0
    simp [hres, Nat.div_eq_of_lt hrem, Nat.mod_eq_of_lt hrem]
  | succ k ih =>
    rw [Function.iterate_succ_apply]
    obtain ⟨hq, hr⟩ := numDivStep_spec d st hrem
    have hdpos : 0 < d.toNat := by omega
    have hpk : 2 ^ (128 - k) = 2 * 2 ^ (128 - (k + 1)) := by
      rw [← pow_succ']
      congr 1
      omega
    have hp127 : 2 ^ 127 = 2 ^ k * 2 ^ (128 - (k + 1)) := by
      rw [← pow_add]
      congr 1
      omega
    -- the bit that leaves the dividend
    have hbit : st.1.toNat / 2 ^ 127 = U / 2 ^ k := by
      rw [hres, hp127, Nat.mul_comm (2 ^ k), ← Nat.div_div_eq_div_mul,
        Nat.mul_comm U, Nat.mul_add_div (by positivity), Nat.div_eq_of_lt hV, Nat.add_zero]
    have hb2 : U / 2 ^ k < 2 := by
      rw [Nat.div_lt_iff_lt_mul (by positivity), ← pow_succ']
      exact hU
    set b := U / 2 ^ k with hbdef
    set q := (2 * st.2.toNat + b) / d.toNat with hqdef
    have hq2 : q < 2 := by
      rw [hqdef, Nat.div_lt_iff_lt_mul hdpos]
      omega
    rw [hbit] at hq hr
    have hUsplit : U = b * 2 ^ k + U % 2 ^ k := by
      rw [hbdef, Nat.mul_comm]
      exact (Nat.div_add_mod U (2 ^ k)).symm
    have hUlt : U % 2 ^ k < 2 ^ k := Nat.mod_lt _ (by positivity)
    have hP : 0 < 2 ^ (128 - (k + 1)) := by positivity
    -- what is left of the dividend after the shift
    have hshift : 2 * st.1.toNat % 2 ^ 128 = U % 2 ^ k * 2 ^ (128 - k) + 2 * V := by
      have h128 : 2 ^ 128 = 2 ^ k * 2 ^ (128 - k) := by
        rw [← pow_add]
        congr 1
        omega
      have hval : 2 * st.1.toNat = b * 2 ^ 128 + (U % 2 ^ k * 2 ^ (128 - k) + 2 * V) := by
        rw [hres, h128, hpk]
        nth_rewrite 1 [hUsplit]
        ring
      have hlt : U % 2 ^ k * 2 ^ (128 - k) + 2 * V < 2 ^ 128 := by
        rw [h128]
        calc U % 2 ^ k * 2 ^ (128 - k) + 2 * V
            < U % 2 ^ k * 2 ^ (128 - k) + 2 ^ (128 - k) := by omega
          _ = (U % 2 ^ k + 1) * 2 ^ (128 - k) := by ring
          _ ≤ 2 ^ k * 2 ^ (128 - k) := Nat.mul_le_mul_right _ hUlt
      rw [hval, Nat.mul_add_mod', Nat.mod_eq_of_lt hlt]
    have hres' : (numDivStep d st).1.toNat = U % 2 ^ k * 2 ^ (128 - k) + (2 * V + q) := by
      rw [hq, hshift, Nat.add_assoc]
    have hrem' : (numDivStep d st).2.toNat < d.toNat := by
      rw [hr]
      exact Nat.mod_lt _ hdpos
    obtain ⟨ihq, ihr⟩ := ih (by omega) (numDivStep d st) (U % 2 ^ k) (2 * V + q)
      hrem' hres' (by omega) hUlt
    -- the running value before this iteration is `q` times the divisor ahead
    have hstep : st.2.toNat * 2 ^ (k + 1) + U =
        d.toNat * (q * 2 ^ k) + ((numDivStep d st).2.toNat * 2 ^ k + U % 2 ^ k) := by
      have hdm := Nat.div_add_mod (2 * st.2.toNat + b) d.toNat
      rw [← hqdef, ← hr] at hdm
      calc st.2.toNat * 2 ^ (k + 1) + U
          = (2 * st.2.toNat + b) * 2 ^ k + U % 2 ^ k := by
            nth_rewrite 1 [hUsplit]
            ring
        _ = (d.toNat * q + (numDivStep d st).2.toNat) * 2 ^ k + U % 2 ^ k := by rw [hdm]
        _ = _ := by ring
    rw [ihq, ihr, hstep, Nat.mul_add_div hdpos, Nat.mul_add_mod]
    exact ⟨by ring, rfl⟩

/-- `num_div_i` divides exactly, for every non-zero divisor. -/
theorem numDivI_spec (n : Num) (d : Word64) (hd : d ≠ 0) :
    (numDivI n d).1.toNat = n.toNat / d.toNat ∧ (numDivI n d).2.toNat = n.toNat % d.toNat := by
  have hpos : (0 : Word64).toNat < d.toNat := by
    have : d.toNat ≠ 0 := fun h => hd (BitVec.eq_of_toNat_eq (by simpa using h))
    simp
    omega
  have h := numDivStep_iterate d 128 le_rfl (n, 0) n.toNat 0 hpos (by simp) (by simp) n.toNat_lt
  simpa [numDivI] using h

end Otpasswd
