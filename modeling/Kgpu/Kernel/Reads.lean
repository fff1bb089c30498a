-- SUMMARY: `kgpu_read` as its caller sees it, for every count, and when it is all or nothing.
import Kgpu.Kernel.Queue

/-!
# Reads of every count

`kgpu_read` takes the oldest request off `reqs` and copies its record to the caller
before it looks at the count, and the count decides what it returns and whether the
request goes on to `rtdreqs`. `kgpu_write` compares its count with the size of a response
first.
-/

namespace Kgpu

namespace Kernel

def eAGAIN : Int := -11
def eRESTARTSYS : Int := -512

/-- What a `kgpu_read` has returned and written to the buffer of its caller, and the
    kernel after. -/
structure ReadResult where
  ret : Int
  written : Option KuRequest
  kernel : Kernel

/-- The number of bytes that `memcpy` has written. -/
def ReadResult.bytes (r : ReadResult) : Nat :=
  match r.written with
  | some _ => kuRequestSize.toNat
  | none => 0

/-- `kgpu_read` with and without `O_NONBLOCK`, with and without a signal while it waits.
    `none` when it goes on waiting. -/
def kgpuReadCall (k : Kernel) (nonblock signal : Bool) (c : UL) : Option ReadResult :=
  match k.kgpuRead c with
  | some (ret, _, kureq, k) => some ⟨ret, some kureq, k⟩
  | none =>
    if nonblock then some ⟨eAGAIN, none, k⟩
    else if signal then some ⟨eRESTARTSYS, none, k⟩
    else none

/-! ## All or nothing -/

/-- The whole record of the oldest request was written and nothing else, the returned value
    says so, and the request has moved to the end of `rtdreqs`. -/
structure ReadAll (k : Kernel) (c : UL) (r : ReadResult) : Prop where
  positive : 0 < r.ret
  le_count : r.ret ≤ c.toNat
  bytes : r.ret = r.bytes
  moved : ∃ item rest, k.reqs = item :: rest ∧
    r.written = some (k.gmpool.fillKuRequest (k.req item.r)) ∧ r.kernel.reqs = rest ∧
    r.kernel.rtdreqs = k.rtdreqs ++ [item]

structure ReadNothing (k : Kernel) (r : ReadResult) : Prop where
  not_positive : r.ret ≤ 0
  bytes : r.bytes = 0
  reqs : r.kernel.reqs = k.reqs
  rtdreqs : r.kernel.rtdreqs = k.rtdreqs

/-- A call that returns has read one request whole or has done nothing, and every request
    is in one of the two queues, as often as before. -/
def AllOrNothing (k : Kernel) (c : UL) : Prop :=
  ∀ nonblock signal r, k.kgpuReadCall nonblock signal c = some r →
    (ReadAll k c r ∨ ReadNothing k r) ∧
    (r.kernel.reqs ++ r.kernel.rtdreqs).Perm (k.reqs ++ k.rtdreqs)

variable {k : Kernel} {c : UL}

theorem kgpuReadCall_empty (hreqs : k.reqs = []) {nonblock signal : Bool} {r : ReadResult}
    (h : k.kgpuReadCall nonblock signal c = some r) :
    (r.ret = eAGAIN ∨ r.ret = eRESTARTSYS) ∧ r.written = none ∧ r.kernel = k := by
  have hnone : k.kgpuRead c = none := by simp [kgpuRead, readTake, hreqs]
  rw [kgpuReadCall, hnone] at h
  cases nonblock with
  | true =>
    cases h
    exact ⟨.inl rfl, rfl, rfl⟩
  | false =>
    cases signal with
    | true =>
      cases h
      exact ⟨.inr rfl, rfl, rfl⟩
    | false => cases h

/-- With a request waiting the call returns its count, whatever that is. -/
theorem kgpuReadCall_cons {item : RequestItem} {rest : List RequestItem}
    (hreqs : k.reqs = item :: rest) (nonblock signal : Bool) :
    k.kgpuReadCall nonblock signal c = some
      ⟨c.toInt, some (k.gmpool.fillKuRequest (k.req item.r)),
        (readRetire { k with reqs := rest } c item).2⟩ := by
  simp [kgpuReadCall, kgpuRead, readTake, readRetire, hreqs]

/-- `kgpu_read` is all or nothing exactly when there is nothing to read or its count is the
    size of the record. -/
theorem read_all_or_nothing (k : Kernel) (c : UL) :
    k.AllOrNothing c ↔ k.reqs = [] ∨ c = kuRequestSize := by
  cases hreqs : k.reqs with
  | nil =>
    refine iff_of_true (fun nonblock signal r h => ?_) (.inl rfl)
    obtain ⟨hret, hwritten, hkernel⟩ := kgpuReadCall_empty hreqs h
    refine ⟨.inr ⟨?_, by rw [ReadResult.bytes, hwritten], by rw [hkernel], by rw [hkernel]⟩, ?_⟩
    · rcases hret with h | h <;> rw [h] <;> decide
    · rw [hkernel]
  | cons item rest =>
    constructor
    · intro h
      obtain ⟨hall | hnothing, -⟩ := h true true _ (kgpuReadCall_cons hreqs true true)
      · -- The call has written 88 bytes and returned its count.
        exact .inr (BitVec.eq_of_toInt_eq hall.bytes)
      · have hbytes : 88 = 0 := hnothing.bytes
        cases hbytes
    · rintro (h | rfl) nonblock signal r hr
      · cases h
      · rw [kgpuReadCall_cons hreqs] at hr
        cases hr
        have hpositive : 0 < kuRequestSize.toInt := by decide
        have hcount : kuRequestSize.toInt = kuRequestSize.toNat := by decide
        refine ⟨.inl ⟨hpositive, hcount.le, hcount, item, rest, hreqs, rfl, rfl, rfl⟩, ?_⟩
        change (rest ++ (k.rtdreqs ++ [item])).Perm (k.reqs ++ k.rtdreqs)
        rw [hreqs, ← List.append_assoc]
        exact List.perm_append_singleton item (rest ++ k.rtdreqs)

/-- A kernel with one request that was not read yet. -/
def oneRequest : Kernel :=
  { terminated := false, ridSequence := 0, reqs := [⟨0, 0⟩], rtdreqs := []
    gmpool := .empty 0x100000 2, fpos := 0, req := fun _ => .constructed 0
    sync := fun _ => ⟨.client 0, .client 0, false⟩, callbacks := [] }

/-- A read of 0 bytes writes 88 bytes and returns 0, and the request is in neither queue
    then. -/
theorem not_read_all_or_nothing :
    ∃ r, oneRequest.kgpuReadCall false false 0 = some r ∧ r.ret = 0 ∧ r.bytes = 88 ∧
      r.kernel.reqs = [] ∧ r.kernel.rtdreqs = [] ∧ ¬ oneRequest.AllOrNothing 0 := by
  refine ⟨_, rfl, rfl, rfl, rfl, rfl, fun h => ?_⟩
  have hperm := (h false false _ rfl).2
  exact absurd hperm.length_eq (by decide)

end Kernel
end Kgpu
