-- SUMMARY: Circular doubly linked lists on a heap of nodes, with the operations that add and remove a node.
import Mathlib.Data.List.Nodup
import Mathlib.Logic.Function.Basic

/-!
# Rings

Nodes of an arbitrary type are linked by two pointers each. A pointer is a node or
`NULL`, which is `none`, and an access through `NULL` or to a node that is not alive
has no result. A ring is a head with the nodes that are reached from it one after
the other until the head comes again, where each pointer forward has its pointer
back. The operations are those of the list header of the Linux kernel; what they
do is said for the ring they are used on and for every node elsewhere.
-/

namespace Library

variable {N : Type}

/-- The pointers of each node, and which nodes there are. -/
structure Links (N : Type) where
  next : N → Option N
  prev : N → Option N
  alive : N → Bool

namespace Links

/-! ## Operations -/

/-- The node that a pointer leads to, for an access. -/
def deref (h : Links N) : Option N → Option N
  | none => none
  | some n => if h.alive n then some n else none

def getNext (h : Links N) (p : Option N) : Option (Option N) := (h.deref p).map h.next

def getPrev (h : Links N) (p : Option N) : Option (Option N) := (h.deref p).map h.prev

section Operations

variable [DecidableEq N]

def setNext (h : Links N) (p v : Option N) : Option (Links N) :=
  (h.deref p).map fun n => { h with next := Function.update h.next n v }

def setPrev (h : Links N) (p v : Option N) : Option (Links N) :=
  (h.deref p).map fun n => { h with prev := Function.update h.prev n v }

/-- `INIT_LIST_HEAD`. -/
def initListHead (h : Links N) (list : Option N) : Option (Links N) := do
  let h ← h.setNext list list
  h.setPrev list list

/-- `__list_add`. -/
def listAdd (h : Links N) (new prev next : Option N) : Option (Links N) := do
  let h ← h.setPrev next new
  let h ← h.setNext new next
  let h ← h.setPrev new prev
  h.setNext prev new

/-- `list_add_tail`. -/
def listAddTail (h : Links N) (new head : Option N) : Option (Links N) := do
  h.listAdd new (← h.getPrev head) head

/-- `__list_del`. -/
def unlink (h : Links N) (prev next : Option N) : Option (Links N) := do
  let h ← h.setPrev next prev
  h.setNext prev next

/-- `list_del`. -/
def listDel (h : Links N) (entry : Option N) : Option (Links N) := do
  let h ← h.unlink (← h.getPrev entry) (← h.getNext entry)
  let h ← h.setNext entry none
  h.setPrev entry none

/-- `list_empty`. -/
def listEmpty (h : Links N) (head : N) : Bool := h.next head = some head

end Operations

/-- The beginning of `list_for_each_safe` and each of its turns: `pos` is set, and `n`
    to the node after it. -/
def forEachAt (h : Links N) : Option N → Option (N × Option N)
  | none => none
  | some pos => (h.getNext (some pos)).map fun n => (pos, n)

def forEachSafe (h : Links N) (head : N) : Option (N × Option N) :=
  (h.getNext (some head)).bind h.forEachAt

/-! ## What the operations leave -/

theorem deref_alive {h : Links N} {a : N} (ha : h.alive a = true) :
    h.deref (some a) = some a := by
  simp [deref, ha]

section Results

variable [DecidableEq N] {h : Links N} {a b n : N}

theorem initListHead_eq (ha : h.alive a = true) :
    h.initListHead (some a) = some { h with
      next := Function.update h.next a (some a)
      prev := Function.update h.prev a (some a) } := by
  simp [initListHead, setNext, setPrev, deref, ha]

theorem listAdd_eq (hn : h.alive n = true) (ha : h.alive a = true) (hb : h.alive b = true) :
    h.listAdd (some n) (some a) (some b) = some { h with
      next := Function.update (Function.update h.next n (some b)) a (some n)
      prev := Function.update (Function.update h.prev b (some n)) n (some a) } := by
  simp [listAdd, setNext, setPrev, deref, hn, ha, hb]

theorem listAddTail_eq (hn : h.alive n = true) (ha : h.alive a = true) (hb : h.alive b = true)
    (hprev : h.prev b = some a) :
    h.listAddTail (some n) (some b) = some { h with
      next := Function.update (Function.update h.next n (some b)) a (some n)
      prev := Function.update (Function.update h.prev b (some n)) n (some a) } := by
  simp [listAddTail, getPrev, deref_alive hb, hprev, listAdd_eq hn ha hb]

theorem listDel_eq (hn : h.alive n = true) (ha : h.alive a = true) (hb : h.alive b = true)
    (hprev : h.prev n = some a) (hnext : h.next n = some b) :
    h.listDel (some n) = some { h with
      next := Function.update (Function.update h.next a (some b)) n none
      prev := Function.update (Function.update h.prev b (some a)) n none } := by
  simp [listDel, unlink, getPrev, getNext, setNext, setPrev, deref, hn, ha, hb, hprev, hnext]

end Results

/-! ## Paths -/

/-- From `a` through the nodes of the list to `b`, forward by `next` and back by `prev`. -/
def Path (h : Links N) : N → List N → N → Prop
  | a, [], b => h.next a = some b ∧ h.prev b = some a
  | a, n :: l, b => (h.next a = some n ∧ h.prev n = some a) ∧ h.Path n l b

/-- The node has the same pointers in both heaps. -/
def Same (h h' : Links N) (n : N) : Prop := h'.next n = h.next n ∧ h'.prev n = h.prev n

namespace Path

variable {h h' : Links N} {a b n : N} {l l' : List N}

theorem append : h.Path a (l ++ n :: l') b ↔ h.Path a l n ∧ h.Path n l' b := by
  induction l generalizing a with
  | nil => rfl
  | cons m l ih =>
    simp only [List.cons_append, Path]
    rw [ih, and_assoc (a := _ ∧ _)]

/-- A path depends on the pointers along it only. -/
theorem congr (hp : h.Path a l b) (hnext : ∀ n ∈ a :: l, h'.next n = h.next n)
    (hprev : ∀ n ∈ l ++ [b], h'.prev n = h.prev n) : h'.Path a l b := by
  induction l generalizing a with
  | nil =>
    rw [Path, hnext a List.mem_cons_self, hprev b (List.mem_singleton_self b)]
    exact hp
  | cons m l ih =>
    obtain ⟨hfirst, hrest⟩ := hp
    refine ⟨?_, ih hrest (fun n hn => hnext n (List.mem_cons_of_mem a hn))
      (fun n hn => hprev n (List.mem_cons_of_mem m hn))⟩
    rw [hnext a List.mem_cons_self, hprev m List.mem_cons_self]
    exact hfirst

/-- The last node before the end. -/
theorem last (hp : h.Path a l b) : ∃ z ∈ a :: l, h.prev b = some z := by
  rcases List.eq_nil_or_concat l with rfl | ⟨l₀, z, rfl⟩
  · exact ⟨a, List.mem_cons_self, hp.2⟩
  · rw [List.concat_eq_append, append] at hp
    exact ⟨z, by simp, hp.2.2⟩

/-- The first node after the beginning. -/
theorem first (hp : h.Path a l b) : ∃ m ∈ l ++ [b], h.next a = some m := by
  cases l with
  | nil => exact ⟨b, List.mem_singleton_self b, hp.1⟩
  | cons m l => exact ⟨m, List.mem_cons_self, hp.1.1⟩

/-- The end of a path is made another node `c`, by the pointers between the last node
    `z` and `c`. -/
theorem redirect {z c : N} (hp : h.Path a l b) (hnodup : (a :: l).Nodup) (hz : h.prev b = some z)
    (hzc : h'.next z = some c) (hcz : h'.prev c = some z)
    (hnext : ∀ n ∈ a :: l, n ≠ z → h'.next n = h.next n)
    (hprev : ∀ n ∈ l, h'.prev n = h.prev n) : h'.Path a l c := by
  rcases List.eq_nil_or_concat l with rfl | ⟨l₀, m, rfl⟩
  · obtain rfl : z = a := Option.some.inj (hz.symm.trans hp.2)
    exact ⟨hzc, hcz⟩
  · rw [List.concat_eq_append] at hp hnodup hnext hprev ⊢
    rw [append] at hp ⊢
    obtain rfl : z = m := Option.some.inj (hz.symm.trans hp.2.2)
    refine ⟨hp.1.congr (fun n hn => hnext n ?_ ?_) hprev, hzc, hcz⟩
    · rw [← List.cons_append]
      exact List.mem_append_left _ hn
    · rintro rfl
      rw [← List.cons_append, List.nodup_append] at hnodup
      exact hnodup.2.2 n hn n (List.mem_singleton_self n) rfl

end Path

/-! ## Rings -/

/-- The nodes of the list are linked in this order in a ring with the head. -/
structure Ring (h : Links N) (head : N) (l : List N) : Prop where
  nodup : (head :: l).Nodup
  alive : ∀ n ∈ head :: l, h.alive n = true
  path : h.Path head l head

namespace Ring

variable {h h' : Links N} {head n new : N} {l l' : List N}

theorem congr (hr : h.Ring head l) (hsame : ∀ n ∈ head :: l, h.Same h' n)
    (halive : ∀ n ∈ head :: l, h'.alive n = h.alive n) : h'.Ring head l where
  nodup := hr.nodup
  alive n hn := (halive n hn).trans (hr.alive n hn)
  path := by
    refine hr.path.congr (fun n hn => (hsame n hn).1) (fun n hn => (hsame n ?_).2)
    rcases List.mem_append.mp hn with hl | hhead
    · exact List.mem_cons_of_mem head hl
    · rw [List.mem_singleton.mp hhead]
      exact List.mem_cons_self

variable [DecidableEq N]

/-- `list_add_tail` of a node that is not in the ring. -/
theorem addTail (hr : h.Ring head l) (hnew : h.alive new = true) (hout : new ∉ head :: l) :
    ∃ h', h.listAddTail (some new) (some head) = some h' ∧ h'.Ring head (l ++ [new]) ∧
      h'.alive = h.alive ∧ ∀ n, n ∉ head :: l → n ≠ new → h.Same h' n := by
  obtain ⟨z, hz, hprev⟩ := hr.path.last
  have hhead : h.alive head = true := hr.alive head List.mem_cons_self
  have hne : ∀ n ∈ head :: l, n ≠ new := fun n hn heq => hout (heq ▸ hn)
  have hheadl : ∀ n ∈ l, n ≠ head := fun n hn heq => (List.nodup_cons.mp hr.nodup).1 (heq ▸ hn)
  refine ⟨_, listAddTail_eq hnew (hr.alive z hz) hhead hprev, ⟨?_, ?_, ?_⟩, rfl, ?_⟩
  · rw [← List.cons_append, ← List.concat_eq_append]
    exact hr.nodup.concat hout
  · intro n hn
    rw [← List.cons_append] at hn
    rcases List.mem_append.mp hn with hold | heq
    · exact hr.alive n hold
    · rw [List.mem_singleton.mp heq]
      exact hnew
  · refine Path.append.mpr ⟨hr.path.redirect hr.nodup hprev ?_ ?_ ?_ ?_, ?_, ?_⟩
    · exact Function.update_self ..
    · exact Function.update_self ..
    · intro n hn hnz
      simp [hnz, hne n hn]
    · intro n hn
      simp [hne n (List.mem_cons_of_mem head hn), hheadl n hn]
    · simp [(hne z hz).symm]
    · simp [hne head List.mem_cons_self]
  · intro n hn hnn
    have hnz : n ≠ z := fun heq => hn (heq ▸ hz)
    have hnh : n ≠ head := fun heq => hn (heq ▸ List.mem_cons_self)
    exact ⟨by simp [hnz, hnn], by simp [hnh, hnn]⟩

/-- `list_del` of a node of the ring. -/
theorem del (hr : h.Ring head (l ++ n :: l')) :
    ∃ h', h.listDel (some n) = some h' ∧ h'.Ring head (l ++ l') ∧ h'.alive = h.alive ∧
      ∀ m, m ∉ head :: (l ++ n :: l') → h.Same h' m := by
  obtain ⟨hbefore, hafter⟩ := Path.append.mp hr.path
  obtain ⟨a, ha, hprev⟩ := hbefore.last
  obtain ⟨b, hb, hnext⟩ := hafter.first
  have hmema : a ∈ head :: (l ++ n :: l') := by
    rw [← List.cons_append]
    exact List.mem_append_left _ ha
  have hmemb : b ∈ head :: (l ++ n :: l') := by
    rcases List.mem_append.mp hb with hb | hb
    · simp [hb]
    · simp [List.mem_singleton.mp hb]
  have hn : n ∈ head :: (l ++ n :: l') := by simp
  -- The nodes before the deleted one, the deleted one and those after it are all different.
  obtain ⟨hnodup, hnodup', hdisj⟩ := List.nodup_append.mp (List.cons_append ▸ hr.nodup)
  have hln : ∀ m ∈ head :: l, m ≠ n := fun m hm => hdisj m hm n List.mem_cons_self
  have hln' : ∀ m ∈ l', m ≠ n := fun m hm heq => (List.nodup_cons.mp hnodup').1 (heq ▸ hm)
  have hll' : ∀ m ∈ head :: l, ∀ m' ∈ l', m ≠ m' := fun m hm m' hm' =>
    hdisj m hm m' (List.mem_cons_of_mem n hm')
  have hsub : (head :: (l ++ l')).Sublist (head :: (l ++ n :: l')) :=
    ((List.sublist_cons_self n l').append_left l).cons_cons head
  refine ⟨_, listDel_eq (hr.alive n hn) (hr.alive a hmema) (hr.alive b hmemb) hprev hnext,
    ⟨hr.nodup.sublist hsub, fun m hm => hr.alive m (hsub.subset hm), ?_⟩, rfl, ?_⟩
  · have hbn : b ≠ n := by
      rcases List.mem_append.mp hb with hb | hb
      · exact hln' b hb
      · rw [List.mem_singleton.mp hb]
        exact hln head List.mem_cons_self
    have hleft : ∀ m ∈ l, m ≠ b := by
      intro m hm
      rcases List.mem_append.mp hb with hb | hb
      · exact hll' m (List.mem_cons_of_mem head hm) b hb
      · rw [List.mem_singleton.mp hb]
        exact fun heq => (List.nodup_cons.mp hnodup).1 (heq ▸ hm)
    have hpath : Path { h with
        next := Function.update (Function.update h.next a (some b)) n none
        prev := Function.update (Function.update h.prev b (some a)) n none } head l b := by
      apply hbefore.redirect hnodup hprev
      · simp [hln a ha]
      · simp [hbn]
      · intro m hm hma
        simp [hma, hln m hm]
      · intro m hm
        simp [hleft m hm, hln m (List.mem_cons_of_mem head hm)]
    cases l' with
    | nil =>
      obtain rfl : b = head := List.mem_singleton.mp hb
      rw [List.append_nil]
      exact hpath
    | cons m l' =>
      obtain rfl : b = m := Option.some.inj (hnext.symm.trans hafter.1.1)
      refine Path.append.mpr ⟨hpath, hafter.2.congr (fun m hm => ?_) (fun m hm => ?_)⟩
      · simp [(hll' a ha m hm).symm, hln' m hm]
      · obtain ⟨-, hnodup'⟩ := List.nodup_cons.mp hnodup'
        rcases List.mem_append.mp hm with hm | hm
        · have hmb : m ≠ b := fun heq => (List.nodup_cons.mp hnodup').1 (heq ▸ hm)
          simp [hmb, hln' m (List.mem_cons_of_mem b hm)]
        · rw [List.mem_singleton.mp hm]
          simp [hll' head List.mem_cons_self b List.mem_cons_self, hln head List.mem_cons_self]
  · intro m hm
    have hma : m ≠ a := fun heq => hm (heq ▸ hmema)
    have hmb : m ≠ b := fun heq => hm (heq ▸ hmemb)
    have hmn : m ≠ n := fun heq => hm (heq ▸ hn)
    exact ⟨by simp [hma, hmn], by simp [hmb, hmn]⟩

end Ring

/-! ## Walks -/

namespace Ring

variable {h : Links N} {head n : N} {l l' : List N}

/-- The pointer of a node to the next one, and of the last one to the head. -/
theorem next_eq (hr : h.Ring head (l ++ n :: l')) : h.next n = some (l'.headD head) := by
  obtain ⟨-, hafter⟩ := Path.append.mp hr.path
  cases l' with
  | nil => exact hafter.1
  | cons m l' => exact hafter.1.1

theorem next_head (hr : h.Ring head l) : h.next head = some (l.headD head) := by
  have hpath := hr.path
  cases l with
  | nil => exact hpath.1
  | cons m l => exact hpath.1.1

theorem headD_mem (hr : h.Ring head (l ++ l')) : l'.headD head ∈ head :: (l ++ l') := by
  cases l' with
  | nil => exact List.mem_cons_self
  | cons m l' => simp

/-- A walk may go on at what is left of the ring. -/
theorem forEachAt (hr : h.Ring head (l ++ l')) :
    h.forEachAt (some (l'.headD head)) = some (l'.headD head, h.next (l'.headD head)) := by
  rw [Links.forEachAt, getNext, deref_alive (hr.alive _ hr.headD_mem)]
  rfl

theorem forEachSafe (hr : h.Ring head l) :
    h.forEachSafe head = some (l.headD head, h.next (l.headD head)) := by
  rw [Links.forEachSafe, getNext, deref_alive (hr.alive head List.mem_cons_self), Option.map_some,
    hr.next_head]
  exact forEachAt (l := []) hr

theorem listEmpty_iff [DecidableEq N] (hr : h.Ring head l) : h.listEmpty head = true ↔ l = [] := by
  rw [listEmpty, decide_eq_true_iff, hr.next_head, Option.some.injEq]
  cases l with
  | nil => simp
  | cons m l =>
    have hne : m ≠ head := fun heq => (List.nodup_cons.mp hr.nodup).1 (heq ▸ List.mem_cons_self)
    simp [hne]

end Ring

/-! ## Several rings -/

/-- Rings that have no node in common. -/
structure Rings {K : Type} (h : Links N) (head : K → N) (items : K → List N) : Prop where
  ring : ∀ k, h.Ring (head k) (items k)
  apart : ∀ k k' n, n ∈ head k :: items k → n ∈ head k' :: items k' → k = k'

namespace Rings

variable {K : Type} {h h' : Links N} {head : K → N} {items : K → List N} {n : N}

theorem congr (hr : h.Rings head items) (hsame : ∀ k, ∀ n ∈ head k :: items k, h.Same h' n)
    (halive : ∀ k, ∀ n ∈ head k :: items k, h'.alive n = h.alive n) : h'.Rings head items where
  ring k := (hr.ring k).congr (hsame k) (halive k)
  apart := hr.apart

/-- A node outside the rings may get any pointers. -/
theorem outside (hr : h.Rings head items) (hout : ∀ k, n ∉ head k :: items k)
    (hsame : ∀ m, m ≠ n → h.Same h' m) (halive : h'.alive = h.alive) : h'.Rings head items :=
  hr.congr (fun k m hm => hsame m fun heq => hout k (heq ▸ hm)) (fun k m _ => by rw [halive])

variable [DecidableEq K] {k : K} {l l' : List N}

/-- One ring is changed, to nodes that are in no other. -/
theorem update (hr : h.Rings head items) (hring : h'.Ring (head k) l)
    (hsame : ∀ n, n ∉ head k :: items k → n ∉ head k :: l → h.Same h' n)
    (halive : h'.alive = h.alive)
    (hout : ∀ k', k' ≠ k → ∀ n ∈ head k' :: items k', n ∉ head k :: l) :
    h'.Rings head (Function.update items k l) where
  ring k' := by
    by_cases hk : k' = k
    · subst hk
      rw [Function.update_self]
      exact hring
    · rw [Function.update_of_ne hk]
      refine (hr.ring k').congr (fun n hn => hsame n (fun hin => ?_) (hout k' hk n hn))
        (fun n _ => by rw [halive])
      exact hk (hr.apart k' k n hn hin)
  apart k₁ k₂ n h₁ h₂ := by
    by_cases hk₁ : k₁ = k <;> by_cases hk₂ : k₂ = k
    · rw [hk₁, hk₂]
    · subst hk₁
      rw [Function.update_self] at h₁
      rw [Function.update_of_ne hk₂] at h₂
      exact absurd h₁ (hout k₂ hk₂ n h₂)
    · subst hk₂
      rw [Function.update_self] at h₂
      rw [Function.update_of_ne hk₁] at h₁
      exact absurd h₂ (hout k₁ hk₁ n h₁)
    · rw [Function.update_of_ne hk₁] at h₁
      rw [Function.update_of_ne hk₂] at h₂
      exact hr.apart k₁ k₂ n h₁ h₂

variable [DecidableEq N]

/-- `list_del` of a node of one of the rings, which is in none afterwards. -/
theorem del (hr : h.Rings head items) (hk : items k = l ++ n :: l') :
    ∃ h', h.listDel (some n) = some h' ∧ h'.Rings head (Function.update items k (l ++ l')) ∧
      h'.alive = h.alive ∧ ∀ k', n ∉ head k' :: Function.update items k (l ++ l') k' := by
  have hring := hr.ring k
  rw [hk] at hring
  obtain ⟨h', hdel, hring', halive, hsame⟩ := hring.del
  have hsub : ∀ m ∈ head k :: (l ++ l'), m ∈ head k :: items k := by
    intro m hm
    rw [hk]
    exact (((List.sublist_cons_self n l').append_left l).cons_cons (head k)).subset hm
  refine ⟨h', hdel, hr.update hring' (fun m hm _ => hsame m (hk ▸ hm)) halive ?_, halive, ?_⟩
  · intro k' hk' m hm hin
    exact hk' (hr.apart k' k m hm (hsub m hin))
  · intro k' hin
    by_cases hk' : k' = k
    · subst hk'
      rw [Function.update_self] at hin
      have hnodup := hring.nodup
      rw [← List.cons_append] at hnodup hin
      exact (List.nodup_middle.mp hnodup).notMem hin
    · rw [Function.update_of_ne hk'] at hin
      have hn : n ∈ head k :: items k := by simp [hk]
      exact hk' (hr.apart k' k n hin hn)

/-- `list_add_tail` of a node outside the rings to one of them. -/
theorem addTail (hr : h.Rings head items) (k : K) (halive : h.alive n = true)
    (hout : ∀ k, n ∉ head k :: items k) :
    ∃ h', h.listAddTail (some n) (some (head k)) = some h' ∧
      h'.Rings head (Function.update items k (items k ++ [n])) ∧ h'.alive = h.alive ∧
      ∀ m, (∀ k, m ∉ head k :: items k) → m ≠ n → h.Same h' m := by
  obtain ⟨h', hadd, hring', halive', hsame⟩ := (hr.ring k).addTail halive (hout k)
  refine ⟨h', hadd, hr.update hring' (fun m hm hm' => hsame m hm fun heq => hm' ?_) halive' ?_,
    halive', fun m hm hne => hsame m (hm k) hne⟩
  · simp [heq]
  · intro k' hk' m hm hin
    rw [← List.cons_append] at hin
    rcases List.mem_append.mp hin with hold | hnew
    · exact hk' (hr.apart k' k m hm hold)
    · rw [List.mem_singleton.mp hnew] at hm
      exact hout k' hm

omit [DecidableEq K] in
/-- `INIT_LIST_HEAD` of a node outside the rings. -/
theorem initListHead (hr : h.Rings head items) (halive : h.alive n = true)
    (hout : ∀ k, n ∉ head k :: items k) :
    ∃ h', h.initListHead (some n) = some h' ∧ h'.Rings head items ∧ h'.alive = h.alive ∧
      h'.next n = some n ∧ h'.prev n = some n ∧ ∀ m, m ≠ n → h.Same h' m := by
  have hsame : ∀ m, m ≠ n → h.Same { h with
      next := Function.update h.next n (some n)
      prev := Function.update h.prev n (some n) } m :=
    fun m hm => ⟨Function.update_of_ne hm _ _, Function.update_of_ne hm _ _⟩
  exact ⟨_, initListHead_eq halive, hr.outside hout hsame rfl, rfl, Function.update_self ..,
    Function.update_self .., hsame⟩

omit [DecidableEq K] in
/-- `list_del` of a node that is linked to itself only. -/
theorem delSelf (hr : h.Rings head items) (halive : h.alive n = true)
    (hout : ∀ k, n ∉ head k :: items k) (hnext : h.next n = some n) (hprev : h.prev n = some n) :
    ∃ h', h.listDel (some n) = some h' ∧ h'.Rings head items ∧ h'.alive = h.alive := by
  refine ⟨_, listDel_eq halive halive halive hprev hnext, hr.outside hout (fun m hm => ?_) rfl, rfl⟩
  exact ⟨by simp [hm], by simp [hm]⟩

end Rings
end Links
end Library
