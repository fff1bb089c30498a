-- SUMMARY: The layout of C structures: offsets, padding, and storing and loading the members.
import Mathlib.Data.List.Basic
import Mathlib.Algebra.Ring.Nat

/-!
# Structure layout

Each member of a C structure is put at the next offset that its alignment allows, and the
structure is as long as its own alignment allows. Members do not overlap, so what is
stored in them is loaded again. The bytes between them are padding, which a store does
not write.
-/

namespace Library

/-! ## Integers as bytes -/

/-- The lowest `n` bytes of a number, least significant first. -/
def leBytes : Nat → Nat → List UInt8
  | 0, _ => []
  | n + 1, v => UInt8.ofNat v :: leBytes n (v / 256)

/-- The number that bytes stand for. -/
def leNat : List UInt8 → Nat
  | [] => 0
  | b :: bs => b.toNat + 256 * leNat bs

@[simp] theorem leBytes_length (n v : Nat) : (leBytes n v).length = n := by
  induction n generalizing v with
  | zero => rfl
  | succ n ih => simp [leBytes, ih]

theorem leNat_leBytes (n v : Nat) : leNat (leBytes n v) = v % 256 ^ n := by
  induction n generalizing v with
  | zero => simp [leBytes, leNat, Nat.mod_one]
  | succ n ih =>
    have hlow : (UInt8.ofNat v).toNat = v % 256 := UInt8.toNat_ofNat'
    rw [leBytes, leNat, ih, hlow, Nat.pow_succ']
    exact (Nat.mod_mul).symm

/-! ## Memory -/

/-- The bytes from some address on. -/
abbrev Bytes := Nat → UInt8

namespace Bytes

def read (mem : Bytes) (off len : Nat) : List UInt8 := (List.range len).map fun i => mem (off + i)

def write (mem : Bytes) (off : Nat) (data : List UInt8) : Bytes := fun i =>
  if off ≤ i then (data[i - off]?).getD (mem i) else mem i

variable {mem : Bytes} {off len i : Nat} {data : List UInt8}

theorem write_before (h : i < off) : mem.write off data i = mem i := if_neg (Nat.not_le.mpr h)

theorem write_after (h : off + data.length ≤ i) : mem.write off data i = mem i := by
  have hle : off ≤ i := Nat.le_trans (Nat.le_add_right _ _) h
  rw [write, if_pos hle, List.getElem?_eq_none (Nat.le_sub_of_add_le' h), Option.getD_none]

theorem read_write (mem : Bytes) (off : Nat) (data : List UInt8) :
    (mem.write off data).read off data.length = data := by
  apply List.ext_getElem
  · simp [read]
  · intro i _ hi
    simp [read, write, List.getElem?_eq_getElem hi]

theorem read_congr {mem' : Bytes} (h : ∀ i, off ≤ i → i < off + len → mem' i = mem i) :
    mem'.read off len = mem.read off len := by
  unfold read
  refine List.map_congr_left fun i hi => h _ (Nat.le_add_right _ _) ?_
  exact Nat.add_lt_add_left (List.mem_range.mp hi) off

end Bytes

/-! ## Members -/

/-- The size and the alignment of a member. -/
structure Member where
  size : Nat
  align : Nat
  align_pos : 0 < align

namespace Member

/-- An integer or a pointer, which is aligned to its size. -/
def scalar (size : Nat) (h : 0 < size) : Member := ⟨size, size, h⟩

/-- `char [n]`. -/
def chars (n : Nat) : Member := ⟨n, 1, Nat.one_pos⟩

end Member

/-- The next multiple of an alignment. -/
def alignUp (n align : Nat) : Nat := (n + align - 1) / align * align

theorem le_alignUp (n : Nat) {align : Nat} (h : 0 < align) : n ≤ alignUp n align := by
  have hmod := Nat.mod_lt (n + align - 1) h
  have hdiv := Nat.div_add_mod (n + align - 1) align
  rw [Nat.mul_comm] at hdiv
  unfold alignUp
  omega

/-- The offsets and sizes of the members that are put from an offset on. -/
def placesFrom : Nat → List Member → List (Nat × Nat)
  | _, [] => []
  | n, m :: ms => (alignUp n m.align, m.size) :: placesFrom (alignUp n m.align + m.size) ms

def endFrom : Nat → List Member → Nat
  | n, [] => n
  | n, m :: ms => endFrom (alignUp n m.align + m.size) ms

/-- The offsets and sizes of the members of a structure. -/
def places (ms : List Member) : List (Nat × Nat) := placesFrom 0 ms

/-- `sizeof` the structure. -/
def structSize (ms : List Member) : Nat :=
  alignUp (endFrom 0 ms) (ms.foldr (fun m a => max m.align a) 1)

/-- A byte that belongs to no member. -/
def Padding (ms : List Member) (i : Nat) : Prop :=
  ∀ e ∈ places ms, i < e.1 ∨ e.1 + e.2 ≤ i

instance (ms : List Member) (i : Nat) : Decidable (Padding ms i) := by
  unfold Padding
  infer_instance

variable {n : Nat} {ms : List Member} {e : Nat × Nat}

theorem le_of_mem_placesFrom (h : e ∈ placesFrom n ms) : n ≤ e.1 := by
  induction ms generalizing n with
  | nil => cases h
  | cons m ms ih =>
    have hle := le_alignUp n m.align_pos
    rcases List.mem_cons.mp h with rfl | h
    · exact hle
    · exact Nat.le_trans (Nat.le_trans hle (Nat.le_add_right _ _)) (ih h)

theorem le_endFrom (n : Nat) (ms : List Member) : n ≤ endFrom n ms := by
  induction ms generalizing n with
  | nil => exact Nat.le_refl n
  | cons m ms ih =>
    exact Nat.le_trans (Nat.le_trans (le_alignUp n m.align_pos) (Nat.le_add_right _ _)) (ih _)

/-- Every member is inside the structure. -/
theorem place_le (h : e ∈ places ms) : e.1 + e.2 ≤ structSize ms := by
  have hend : ∀ n (ms : List Member), e ∈ placesFrom n ms → e.1 + e.2 ≤ endFrom n ms := by
    intro n ms
    induction ms generalizing n with
    | nil =>
      intro h
      cases h
    | cons m ms ih =>
      intro h
      rcases List.mem_cons.mp h with rfl | h
      · exact le_endFrom _ ms
      · exact ih _ h
  have hpos : ∀ ms : List Member, 0 < ms.foldr (fun m a => max m.align a) 1 := by
    intro ms
    induction ms with
    | nil => exact Nat.one_pos
    | cons m ms _ => exact Nat.lt_of_lt_of_le m.align_pos (Nat.le_max_left _ _)
  exact Nat.le_trans (hend 0 ms h) (le_alignUp _ (hpos ms))

/-! ## Storing and loading -/

/-- The members are written one after the other. -/
def storeAt : List (Nat × Nat) → List (List UInt8) → Bytes → Bytes
  | e :: es, v :: vs, mem => storeAt es vs (mem.write e.1 v)
  | _, _, mem => mem

def loadAt (es : List (Nat × Nat)) (mem : Bytes) : List (List UInt8) :=
  es.map fun e => mem.read e.1 e.2

/-- Assignment to all members of a structure. -/
def store (ms : List Member) (vs : List (List UInt8)) (mem : Bytes) : Bytes :=
  storeAt (places ms) vs mem

def load (ms : List Member) (mem : Bytes) : List (List UInt8) := loadAt (places ms) mem

/-- There is a value of the right size for each member. -/
def Sized (ms : List Member) (vs : List (List UInt8)) : Prop :=
  vs.map List.length = ms.map Member.size

theorem storeAt_of_outside {es : List (Nat × Nat)} {vs : List (List UInt8)} {mem : Bytes} {i : Nat}
    (hsize : vs.map List.length = es.map Prod.snd)
    (hout : ∀ e ∈ es, i < e.1 ∨ e.1 + e.2 ≤ i) : storeAt es vs mem i = mem i := by
  induction es generalizing vs mem with
  | nil => cases vs <;> rfl
  | cons e es ih =>
    cases vs with
    | nil => rfl
    | cons v vs =>
      obtain ⟨hv, hvs⟩ := List.cons_eq_cons.mp hsize
      rw [storeAt, ih hvs fun e' he' => hout e' (List.mem_cons_of_mem e he')]
      rcases hout e List.mem_cons_self with hlt | hle
      · exact Bytes.write_before hlt
      · rw [← hv] at hle
        exact Bytes.write_after hle

theorem placesFrom_sizes (n : Nat) (ms : List Member) :
    (placesFrom n ms).map Prod.snd = ms.map Member.size := by
  induction ms generalizing n with
  | nil => rfl
  | cons m ms ih => simp [placesFrom, ih]

/-- What is stored is loaded, whatever the memory held. -/
theorem load_store {vs : List (List UInt8)} (h : Sized ms vs) (mem : Bytes) :
    load ms (store ms vs mem) = vs := by
  have hgen : ∀ (ms : List Member) n (vs : List (List UInt8)) (mem : Bytes), Sized ms vs →
      loadAt (placesFrom n ms) (storeAt (placesFrom n ms) vs mem) = vs := by
    intro ms
    induction ms with
    | nil =>
      intro n vs mem h
      exact (List.map_eq_nil_iff.mp h).symm
    | cons m ms ih =>
      intro n vs mem h
      cases vs with
      | nil => cases h
      | cons v vs =>
        obtain ⟨hv, hvs⟩ := List.cons_eq_cons.mp h
        rw [placesFrom, storeAt, loadAt, List.map_cons]
        refine List.cons_eq_cons.mpr ⟨?_, ih _ vs _ hvs⟩
        -- The later members begin where this one ends.
        have hrest : ∀ i, alignUp n m.align ≤ i → i < alignUp n m.align + m.size →
            storeAt (placesFrom (alignUp n m.align + m.size) ms) vs
              (mem.write (alignUp n m.align) v) i = mem.write (alignUp n m.align) v i := by
          intro i _ hlt
          refine storeAt_of_outside (hvs.trans (placesFrom_sizes _ ms).symm) fun e he => .inl ?_
          exact Nat.lt_of_lt_of_le hlt (le_of_mem_placesFrom he)
        rw [Bytes.read_congr hrest, ← hv]
        exact Bytes.read_write _ _ v
  exact hgen ms 0 vs mem h

/-- A store leaves the padding and what is behind the structure as it was. -/
theorem store_padding {vs : List (List UInt8)} (h : Sized ms vs) (mem : Bytes) {i : Nat}
    (hi : Padding ms i) : store ms vs mem i = mem i :=
  storeAt_of_outside (Eq.trans h (placesFrom_sizes 0 ms).symm) hi

/-- What is loaded depends on the bytes of the structure alone. -/
theorem load_congr {mem mem' : Bytes} (h : ∀ i, i < structSize ms → mem' i = mem i) :
    load ms mem' = load ms mem := by
  refine List.map_congr_left fun e he => Bytes.read_congr fun i _ hi => h i ?_
  exact Nat.lt_of_lt_of_le hi (place_le he)

end Library
