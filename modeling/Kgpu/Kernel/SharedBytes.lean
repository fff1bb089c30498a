-- SUMMARY: When the kernel address of a buffer byte and the user address made from it denote the same physical byte.
import Kgpu.Kernel.Setup

/-!
# The bytes of the pool

`set_gpu_mempool` builds the kernel mapping of the buffer page by page, from the frames
behind the pages of the user addresses. `fill_ku_request` turns a kernel address into a
user address by its distance to the start of the pool, byte by byte. The two agree
exactly when the buffer begins at a page boundary and every page of it has a frame.
-/

namespace Kgpu

open Library

/-- A byte of physical memory: a frame and an offset in it. -/
abbrev PhysByte := Frame × Nat

/-- The byte at an address of the process that set the pool up. -/
def SetupEnv.userByte (e : SetupEnv) (a : UL) : Option PhysByte :=
  (e.kgpuV2page a).map fun f => (f, a.toNat % 4096)

namespace GmPool

/-- The byte at an address of the mapping that `vmap` makes: the frame of entry `i` is at
    `kva + i * PAGE_SIZE`. -/
def kernelByte (g : GmPool) (a : UL) : Option PhysByte :=
  if (a - g.kva).toNat / 4096 < g.npages.toNat then
    (g.pages ((a - g.kva).toNat / 4096 : Nat)).map fun f => (f, a.toNat % 4096)
  else none

/-- Every byte of the pool is the same byte of memory at its kernel address and at the
    user address made from it. -/
def SameBytes (e : SetupEnv) (g : GmPool) : Prop :=
  ∀ o < g.npages.toNat * 4096, ∃ b, g.kernelByte (g.kva + BitVec.ofNat 64 o) = some b ∧
    e.userByte (addrRebase g.uva g.kva (g.kva + BitVec.ofNat 64 o)) = some b

/-- The buffer begins at a page boundary and has a frame behind every page. Past 2^31
    pages, which the index of the page loop does not reach, the frame has to be in the
    array already. -/
structure Resident (e : SetupEnv) (gb : MemInfo) (g : GmPool) : Prop where
  aligned : gb.uva.toNat % 4096 = 0
  frames : ∀ i < gb.npages.toNat, ∃ f,
    e.kgpuV2page (gb.uva + BitVec.ofNat 64 i * pageSize) = some f ∧
      (2 ^ 31 ≤ i → g.oldPages e i = some f)

/-! ## The page loop -/

/-- A loop that writes each of `n` slots once. -/
theorem foldl_update_of_mem {α : Type} {f : Nat → Int} {v : Nat → α} {m : Int → α} {n i : Nat}
    (hinj : ∀ a < n, ∀ b < n, f a = f b → a = b) (hi : i < n) :
    (List.range n).foldl (fun m i => Function.update m (f i) (v i)) m (f i) = v i := by
  induction n with
  | zero => omega
  | succ n ih =>
    rw [List.range_succ, List.foldl_append, List.foldl_cons, List.foldl_nil]
    by_cases hin : i = n
    · subst hin
      rw [Function.update_self]
    · have hne : f i ≠ f n := fun he => hin (hinj i hi n (Nat.lt_succ_self n) he)
      rw [Function.update_of_ne hne]
      exact ih (fun a ha b hb => hinj a (by omega) b (by omega)) (by omega)

theorem foldl_update_of_not_mem {α : Type} {f : Nat → Int} {v : Nat → α} {m : Int → α} {n : Nat}
    {y : Int} (hy : ∀ i < n, f i ≠ y) :
    (List.range n).foldl (fun m i => Function.update m (f i) (v i)) m y = m y := by
  induction n with
  | zero => rfl
  | succ n ih =>
    rw [List.range_succ, List.foldl_append, List.foldl_cons, List.foldl_nil,
      Function.update_of_ne (hy n (Nat.lt_succ_self n)).symm]
    exact ih fun i hi => hy i (by omega)

theorem cInt_of_ge {i : Nat} (hi : 2 ^ 31 ≤ i) (hlt : i < 2 ^ 32) : cInt i = (i : Int) - 2 ^ 32 := by
  have hn : (BitVec.ofNat 32 i).toNat = i := by
    rw [BitVec.toNat_ofNat]
    omega
  rw [cInt, BitVec.toInt_eq_toNat_cond, hn]
  split
  · omega
  · rfl

theorem cInt_inj {a b : Nat} (ha : a < 2 ^ 32) (hb : b < 2 ^ 32) (h : cInt a = cInt b) : a = b := by
  have hword := congrArg (BitVec.ofInt 32) h
  simp only [cInt, BitVec.ofInt_toInt] at hword
  have hnat := congrArg BitVec.toNat hword
  simpa only [BitVec.toNat_ofNat, Nat.mod_eq_of_lt ha, Nat.mod_eq_of_lt hb] using hnat

variable {e : SetupEnv} {gb : MemInfo} {g g' : GmPool}

/-- What the page loop leaves in entry `i`. -/
theorem SetUp.pages_eq (h : SetUp e gb g g') {i : Nat} (hi : i < gb.npages.toNat) :
    g'.pages i = if i < 2 ^ 31 then e.kgpuV2page (gb.uva + BitVec.ofNat 64 i * pageSize)
      else g.oldPages e i := by
  have hn : gb.npages.toNat < 2 ^ 32 := gb.npages.isLt
  rw [h.pages]
  split
  next hlt =>
    rw [← GmPool.cInt_of_lt hlt, foldl_update_of_mem
      (fun a ha b hb => cInt_inj (by omega) (by omega)) hi, GmPool.cInt_of_lt hlt,
      BitVec.ofInt_natCast]
  next hge =>
    refine foldl_update_of_not_mem fun j hj => ?_
    by_cases hj' : j < 2 ^ 31
    · rw [GmPool.cInt_of_lt hj']
      omega
    · rw [cInt_of_ge (by omega) (by omega)]
      omega

/-! ## The two addresses of a byte -/

theorem addrRebase_add (u k x : UL) : addrRebase u k (k + x) = u + x := by
  rw [addrRebase, BitVec.add_comm k x, BitVec.add_sub_cancel]

theorem SetUp.kernelByte_eq (h : SetUp e gb g g') (halign : e.vmap.toNat % 4096 = 0) {o : Nat}
    (ho : o < gb.npages.toNat * 4096) :
    g'.kernelByte (g'.kva + BitVec.ofNat 64 o) =
      (g'.pages (o / 4096 : Nat)).map fun f => (f, o % 4096) := by
  have hn : gb.npages.toNat < 2 ^ 32 := gb.npages.isLt
  have hk : e.vmap.toNat < 2 ^ 64 := e.vmap.isLt
  have hoff : (BitVec.ofNat 64 o).toNat = o := by
    rw [BitVec.toNat_ofNat]
    omega
  have hsub : (e.vmap + BitVec.ofNat 64 o - e.vmap).toNat = o := by
    rw [BitVec.add_comm, BitVec.add_sub_cancel, hoff]
  have hmod : (e.vmap + BitVec.ofNat 64 o).toNat % 4096 = o % 4096 := by
    rw [BitVec.toNat_add, hoff]
    omega
  have hslot : o / 4096 < gb.npages.toNat := by omega
  rw [kernelByte, h.kva, h.npages, hsub, hmod, if_pos hslot]

/-- The user byte at an offset of a buffer that begins at a page boundary. -/
theorem userByte_aligned {u : UL} (halign : u.toNat % 4096 = 0) {o : Nat} :
    e.userByte (u + BitVec.ofNat 64 o) =
      (e.kgpuV2page (u + BitVec.ofNat 64 (o / 4096) * pageSize)).map fun f => (f, o % 4096) := by
  have hu : u.toNat < 2 ^ 64 := u.isLt
  have haddr : (u + BitVec.ofNat 64 o).toNat = (u.toNat + o) % 2 ^ 64 := by
    rw [BitVec.toNat_add, BitVec.toNat_ofNat]
    omega
  have hpage : (u + BitVec.ofNat 64 (o / 4096) * pageSize).toNat =
      (u.toNat + o / 4096 * 4096) % 2 ^ 64 := by
    rw [BitVec.toNat_add, BitVec.toNat_mul, BitVec.toNat_ofNat, show pageSize.toNat = 4096 from rfl]
    omega
  rw [SetupEnv.userByte, SetupEnv.kgpuV2page, SetupEnv.kgpuV2page, haddr, hpage,
    show (u.toNat + o) % 2 ^ 64 % 4096 = o % 4096 by omega,
    show (u.toNat + o) % 2 ^ 64 / 4096 = (u.toNat + o / 4096 * 4096) % 2 ^ 64 / 4096 by omega]

/-- The first byte of a page of the buffer. -/
theorem userByte_page {u : UL} {i : Nat} :
    e.userByte (u + BitVec.ofNat 64 (i * 4096)) =
      (e.kgpuV2page (u + BitVec.ofNat 64 i * pageSize)).map fun f => (f, u.toNat % 4096) := by
  have haddr : u + BitVec.ofNat 64 (i * 4096) = u + BitVec.ofNat 64 i * pageSize := by
    rw [pageSize, BitVec.ofNat_mul]
    rfl
  have hmod : (u + BitVec.ofNat 64 (i * 4096)).toNat % 4096 = u.toNat % 4096 := by
    rw [BitVec.toNat_add, BitVec.toNat_ofNat]
    omega
  rw [SetupEnv.userByte, hmod, haddr]

theorem SetUp.sameBytes_iff (h : SetUp e gb g g') (halign : e.vmap.toNat % 4096 = 0)
    (hpos : 0 < gb.npages.toNat) : g'.SameBytes e ↔ Resident e gb g := by
  have hn : gb.npages.toNat < 2 ^ 32 := gb.npages.isLt
  constructor
  · intro hsame
    -- Seen at the first byte of page `i`.
    have hpage : ∀ i < gb.npages.toNat, ∃ f,
        e.kgpuV2page (gb.uva + BitVec.ofNat 64 i * pageSize) = some f ∧ g'.pages i = some f ∧
          gb.uva.toNat % 4096 = 0 := by
      intro i hi
      obtain ⟨b, hk, hu⟩ := hsame (i * 4096) (by rw [h.npages]; omega)
      rw [h.kernelByte_eq halign (by omega), Nat.mul_div_cancel i (by decide),
        Nat.mul_mod_left] at hk
      rw [addrRebase_add, h.uva, userByte_page] at hu
      obtain ⟨f, hf, rfl⟩ := Option.map_eq_some_iff.mp hk
      obtain ⟨f', hf', heq⟩ := Option.map_eq_some_iff.mp hu
      obtain ⟨hff, hzero⟩ := Prod.mk.inj heq
      subst hff
      exact ⟨f', hf', hf, hzero⟩
    refine ⟨?_, fun i hi => ?_⟩
    · obtain ⟨f, -, -, ha⟩ := hpage 0 hpos
      exact ha
    · obtain ⟨f, hf, hp, -⟩ := hpage i hi
      refine ⟨f, hf, fun hge => ?_⟩
      rwa [h.pages_eq hi, if_neg (by omega)] at hp
  · rintro ⟨haligned, hframes⟩ o ho
    rw [h.npages] at ho
    obtain ⟨f, hf, hlate⟩ := hframes (o / 4096) (by omega)
    refine ⟨(f, o % 4096), ?_, ?_⟩
    · rw [h.kernelByte_eq halign ho, h.pages_eq (by omega)]
      split
      · rw [hf]
        rfl
      · rw [hlate (by omega)]
        rfl
    · rw [addrRebase_add, h.uva, userByte_aligned haligned, hf]
      rfl

/-- Below the size that `fill_ku_request` tests with it makes the user address by
    rebasing. -/
theorem SetUp.toUser_eq (h : SetUp e gb g g')
    (hwrap : e.vmap.toNat + gb.npages.toNat * 4096 < 2 ^ 64) {o : Nat}
    (ho : o < g'.byteSize.toNat) :
    g'.toUser (g'.kva + BitVec.ofNat 64 o) =
      addrRebase g'.uva g'.kva (g'.kva + BitVec.ofNat 64 o) := by
  have hsize : g'.byteSize.toNat ≤ gb.npages.toNat * 4096 := by
    rw [Mempool.byteSize_toNat, h.npages]
    exact Nat.mod_le _ _
  have hoff : (g'.kva + BitVec.ofNat 64 o).toNat = g'.kva.toNat + o := by
    rw [BitVec.toNat_add, BitVec.toNat_ofNat, h.kva]
    omega
  have hwithin : addrWithin (g'.kva + BitVec.ofNat 64 o) g'.kva g'.byteSize = true := by
    rw [addrWithin_iff (by rw [h.kva]; omega), hoff]
    omega
  rw [Mempool.toUser, hwithin, if_pos rfl]

/-- With a mapping that begins at a page boundary, the kernel and the helper see the same
    bytes after a set-up that returned 0 exactly when the pool has no page at all or the
    buffer is aligned and resident. The user address is the one `fill_ku_request` makes of
    every address that it takes for one of the pool. -/
theorem kernel_and_helper_see_same_bytes (e : SetupEnv) (gb : MemInfo) (g : GmPool)
    (halign : e.vmap.toNat % 4096 = 0) (hwrap : e.vmap.toNat + gb.npages.toNat * 4096 < 2 ^ 64) :
    (((g.setGpuMempool e gb).1 = 0 → (g.setGpuMempool e gb).2.SameBytes e) ↔
      (¬ Obtained e g ∨ gb.npages = 0 ∨ Resident e gb g)) ∧
    ((g.setGpuMempool e gb).1 = 0 → ∀ o < (g.setGpuMempool e gb).2.byteSize.toNat,
      (g.setGpuMempool e gb).2.toUser ((g.setGpuMempool e gb).2.kva + BitVec.ofNat 64 o) =
        addrRebase (g.setGpuMempool e gb).2.uva (g.setGpuMempool e gb).2.kva
          ((g.setGpuMempool e gb).2.kva + BitVec.ofNat 64 o)) := by
  rcases setGpuMempool_outcome e gb g with ⟨ho, hret, hset⟩ | ⟨hno, hret, -⟩
  · refine ⟨?_, fun _ o ho => hset.toUser_eq hwrap ho⟩
    rcases Nat.eq_zero_or_pos gb.npages.toNat with hzero | hpos
    · have hnone : gb.npages = 0 := BitVec.eq_of_toNat_eq (by simpa using hzero)
      refine iff_of_true (fun _ o ho => ?_) (.inr (.inl hnone))
      rw [hset.npages, hzero] at ho
      omega
    · have hne : gb.npages ≠ 0 := by
        intro h0
        rw [h0] at hpos
        exact absurd hpos (by decide)
      rw [← hset.sameBytes_iff halign hpos]
      constructor
      · intro h
        exact .inr (.inr (h hret))
      · rintro (h | h | h) _
        · exact absurd ho h
        · exact absurd h hne
        · exact h
  · exact ⟨iff_of_true (fun h => absurd h hret) (.inl hno), fun h => absurd h hret⟩

/-- A buffer of two units that begins at a page boundary. -/
theorem kernel_and_helper_see_same_bytes_aligned :
    (Setups.boot.pool.setGpuMempool .plenty ⟨0x1000000, 0x200000⟩).1 = 0 ∧
      (Setups.boot.pool.setGpuMempool .plenty ⟨0x1000000, 0x200000⟩).2.SameBytes .plenty := by
  have h := kernel_and_helper_see_same_bytes .plenty ⟨0x1000000, 0x200000⟩ Setups.boot.pool
    (by decide) (by decide)
  refine ⟨rfl, h.1.mpr (.inr (.inr ⟨by decide, fun i hi => ⟨_, rfl, fun hge => ?_⟩⟩)) rfl⟩
  have hn : (MemInfo.npages ⟨0x1000000, 0x200000⟩).toNat = 512 := by decide
  omega

/-- A buffer that begins in the middle of a page: the first byte of the pool is the first
    byte of the frame to the kernel and the byte at offset 2048 to the helper. -/
theorem not_kernel_and_helper_see_same_bytes :
    (Setups.boot.pool.setGpuMempool .plenty ⟨0x1000800, 0x200000⟩).1 = 0 ∧
      (Setups.boot.pool.setGpuMempool .plenty ⟨0x1000800, 0x200000⟩).2.kernelByte 0x100000 =
        some (0x1000, 0) ∧
      SetupEnv.plenty.userByte (addrRebase 0x1000800 0x100000 0x100000) = some (0x1000, 0x800) ∧
      ¬ (Setups.boot.pool.setGpuMempool .plenty ⟨0x1000800, 0x200000⟩).2.SameBytes .plenty := by
  have hset : SetUp .plenty ⟨0x1000800, 0x200000⟩ Setups.boot.pool
      (Setups.boot.pool.setGpuMempool .plenty ⟨0x1000800, 0x200000⟩).2 := by
    rcases setGpuMempool_outcome .plenty ⟨0x1000800, 0x200000⟩ Setups.boot.pool with
      ⟨-, -, hset⟩ | ⟨-, hret, -⟩
    · exact hset
    · exact absurd rfl hret
  have hbyte := hset.kernelByte_eq (o := 0) (by decide) (by decide)
  rw [hset.pages_eq (i := 0 / 4096) (by decide)] at hbyte
  refine ⟨rfl, hbyte, rfl, fun hsame => ?_⟩
  obtain ⟨b, hk, hu⟩ := hsame 0 (by decide)
  cases hbyte.symm.trans hk
  cases hu

end GmPool
end Kgpu
