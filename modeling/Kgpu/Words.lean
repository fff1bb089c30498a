-- SUMMARY: The C integer types of the program and the address macros of `kgpu.h` and `kkgpu.h`.
import Mathlib.Data.BitVec

/-!
# Machine words

`unsigned long` and pointers are 64-bit words and `u32` is a 32-bit word, with
C's wrapping arithmetic. `int` values that are never computed with (ids, return
values, error codes) are plain integers.
-/

namespace Kgpu

/-- `unsigned long`, and every pointer cast to it. -/
abbrev UL := BitVec 64

instance decidableMemUL (a : UL) (l : List UL) : Decidable (a ∈ l) :=
  List.instDecidableMemOfLawfulBEq a l

/-- `u32` and `unsigned int`. -/
abbrev U32 := BitVec 32

/-- Number of a page frame. -/
abbrev Frame := Nat

/-- `PAGE_SIZE`. -/
def pageSize : UL := 4096

/-- `KGPU_BUF_UNIT_SIZE`. -/
def bufUnitSize : UL := 1024 * 1024

/-- `KGPU_BUF_SIZE`. -/
def bufSize : UL := 128 * 128 * 128

/-- `KGPU_MMAP_SIZE`. -/
def mmapSize : UL := bufSize

/-- `DIV_ROUND_UP(x, len)`: the sum may wrap. -/
def divRoundUp (x len : UL) : UL := (x + len - 1) / len

/-- `ADDR_WITHIN(pointer, base, size)`: the end of the range may wrap. -/
def addrWithin (pointer base size : UL) : Bool :=
  base ≤ pointer && pointer < base + size

/-- `ADDR_REBASE(dst_base, src_base, pointer)`. -/
def addrRebase (dstBase srcBase pointer : UL) : UL := dstBase + (pointer - srcBase)

@[simp] theorem bufUnitSize_toNat : bufUnitSize.toNat = 2 ^ 20 := rfl

theorem bufSize_toNat : bufSize.toNat = 2097152 := rfl

theorem mmapSize_toNat : mmapSize.toNat = 2097152 := rfl

theorem addrWithin_iff {pointer base size : UL} (hwrap : base.toNat + size.toNat < 2 ^ 64) :
    addrWithin pointer base size = true ↔
      base.toNat ≤ pointer.toNat ∧ pointer.toNat < base.toNat + size.toNat := by
  simp only [addrWithin, Bool.and_eq_true, decide_eq_true_eq, BitVec.le_def, BitVec.lt_def,
    BitVec.toNat_add, Nat.mod_eq_of_lt hwrap]

/-- Rebasing keeps the offset when the target region does not wrap. -/
theorem addrRebase_toNat {dstBase srcBase pointer : UL} (hle : srcBase.toNat ≤ pointer.toNat)
    (hwrap : dstBase.toNat + (pointer.toNat - srcBase.toNat) < 2 ^ 64) :
    (addrRebase dstBase srcBase pointer).toNat =
      dstBase.toNat + (pointer.toNat - srcBase.toNat) := by
  have hp : pointer.toNat < 2 ^ 64 := pointer.isLt
  have hsub : (pointer - srcBase).toNat = pointer.toNat - srcBase.toNat :=
    BitVec.toNat_sub_of_le (by simpa [BitVec.le_def] using hle)
  rw [addrRebase, BitVec.toNat_add, hsub, Nat.mod_eq_of_lt hwrap]

/-! ## Clearing arrays -/

/-- `BITS_TO_LONGS(n)`, in bits. -/
def bitsToLongs (n : Nat) : Nat := (n + 63) / 64 * 64

theorem le_bitsToLongs (n : Nat) : n ≤ bitsToLongs n := by
  unfold bitsToLongs
  omega

/-- Byte `j` of a word in memory. -/
def byteOf (w : U32) (j : Nat) : Nat := w.toNat / 256 ^ j % 256

def ofBytes (b : Nat → Nat) : U32 :=
  BitVec.ofNat 32 (b 0 + 256 * b 1 + 65536 * b 2 + 16777216 * b 3)

/-- `memset(a, 0, n)` of an array of `u32`: the first `n` bytes are cleared. -/
def memsetZero (a : Nat → U32) (n : Nat) : Nat → U32 :=
  fun i => ofBytes fun j => if 4 * i + j < n then 0 else byteOf (a i) j

/-- A word is put together from its bytes, and in one way. -/
theorem ofBytes_eq_iff {b : Nat → Nat} (hb : ∀ j, b j < 256) {w : U32} :
    ofBytes b = w ↔ ∀ j < 4, b j = byteOf w j := by
  have h0 := hb 0
  have h1 := hb 1
  have h2 := hb 2
  have h3 := hb 3
  have hw : w.toNat < 2 ^ 32 := w.isLt
  have hsum : (ofBytes b).toNat = b 0 + 256 * b 1 + 65536 * b 2 + 16777216 * b 3 := by
    rw [ofBytes, BitVec.toNat_ofNat]
    omega
  have hbytes : (∀ j < 4, b j = byteOf w j) ↔ b 0 = w.toNat % 256 ∧ b 1 = w.toNat / 256 % 256 ∧
      b 2 = w.toNat / 65536 % 256 ∧ b 3 = w.toNat / 16777216 % 256 := by
    constructor
    · intro h
      refine ⟨?_, h 1 (by decide), h 2 (by decide), h 3 (by decide)⟩
      simpa [byteOf] using h 0 (by decide)
    · rintro ⟨hb0, hb1, hb2, hb3⟩ j hj
      have hcases : j = 0 ∨ j = 1 ∨ j = 2 ∨ j = 3 := by omega
      rcases hcases with rfl | rfl | rfl | rfl
      · simpa [byteOf] using hb0
      · exact hb1
      · exact hb2
      · exact hb3
  rw [hbytes, ← BitVec.toNat_inj, hsum]
  omega

theorem byteOf_lt (w : U32) (j : Nat) : byteOf w j < 256 := Nat.mod_lt _ (by decide)

theorem memset_byte_lt {w : U32} {c : Prop} [Decidable c] {j : Nat} :
    (if c then 0 else byteOf w j) < 256 := by
  split
  · decide
  · exact byteOf_lt w j

/-- An entry is cleared when the bytes of it that `memset` does not reach were zero. -/
theorem memsetZero_eq_zero {a : Nat → U32} {n i : Nat} :
    memsetZero a n i = 0 ↔ ∀ j < 4, n ≤ 4 * i + j → byteOf (a i) j = 0 := by
  rw [memsetZero, ofBytes_eq_iff fun _ => memset_byte_lt]
  refine forall_congr' fun j => imp_congr_right fun _ => ?_
  have hzero : byteOf 0 j = 0 := by simp [byteOf]
  rw [hzero]
  split
  next hlt => exact iff_of_true rfl fun hle => by omega
  next hge => exact ⟨fun h _ => h, fun h => h (Nat.le_of_not_lt hge)⟩

/-- An entry is kept when the bytes of it that `memset` reaches were zero. -/
theorem memsetZero_eq_self {a : Nat → U32} {n i : Nat} :
    memsetZero a n i = a i ↔ ∀ j < 4, 4 * i + j < n → byteOf (a i) j = 0 := by
  rw [memsetZero, ofBytes_eq_iff fun _ => memset_byte_lt]
  refine forall_congr' fun j => imp_congr_right fun _ => ?_
  split
  next hlt => exact ⟨fun h _ => h.symm, fun h => (h hlt).symm⟩
  next hge => exact iff_of_true rfl fun hlt => absurd hlt hge

end Kgpu
