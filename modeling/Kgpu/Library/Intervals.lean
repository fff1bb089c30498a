-- SUMMARY: Closed intervals of a linear order, the maximal chains of touching intervals, and the merging of two intervals that touch.
import Mathlib.Data.List.Pairwise
import Mathlib.Logic.Relation
import Mathlib.Order.Bounds.Basic
import Mathlib.Order.Interval.Basic

/-!
# Chains of intervals

Two closed intervals touch when they have a point in common. The members of a set of
intervals fall into maximal chains, in which each one is reached from each other by
touching members. Replacing two intervals that touch by their hull, until no two touch,
leaves exactly the hulls of the maximal chains, in whatever order it is done.
-/

namespace Library

variable {α : Type} [LinearOrder α]

/-- The intervals have a point in common. -/
def Touch (a b : NonemptyInterval α) : Prop := a.fst ≤ b.snd ∧ b.fst ≤ a.snd

/-- The second interval is reached from the first through members of `R`, each of which
    touches the one before. -/
def Linked (R : Set (NonemptyInterval α)) : NonemptyInterval α → NonemptyInterval α → Prop :=
  Relation.ReflTransGen fun a b => b ∈ R ∧ Touch a b

/-- The maximal chain of a member. -/
def chain (R : Set (NonemptyInterval α)) (r : NonemptyInterval α) : Set (NonemptyInterval α) :=
  {x | Linked R r x}

/-- The least interval that contains all of `S`. -/
structure IsHull (S : Set (NonemptyInterval α)) (h : NonemptyInterval α) : Prop where
  least : IsLeast ((·.fst) '' S) h.fst
  greatest : IsGreatest ((·.snd) '' S) h.snd

/-- The hulls of the maximal chains. -/
def hulls (R : Set (NonemptyInterval α)) : Set (NonemptyInterval α) :=
  {h | ∃ r ∈ R, IsHull (chain R r) h}

variable {R S U : Set (NonemptyInterval α)} {a b e r : NonemptyInterval α}

theorem Touch.symm (h : Touch a b) : Touch b a := And.symm h

theorem Touch.mono {a' b' : NonemptyInterval α} (h : Touch a b) (ha : a ≤ a') (hb : b ≤ b') :
    Touch a' b' :=
  ⟨ha.1.trans (h.1.trans hb.2), hb.1.trans (h.2.trans ha.2)⟩

theorem Linked.mono (h : Linked S a b) (hsub : S ⊆ R) : Linked R a b :=
  Relation.ReflTransGen.mono (fun _ _ hab => ⟨hsub hab.1, hab.2⟩) _ _ h

/-- A chain has no gap: between its ends it has a member at every cut. `L` says that a
    point lies before the cut, and `Q` that it lies behind. -/
theorem Linked.covers {L Q : α → Prop} (hcut : ∀ y, Q y ∨ ∀ z ≤ y, L z) (h : Linked S a b)
    (ha : a ∈ S) (hlo : L a.fst) (hhi : Q b.snd) : ∃ s ∈ S, L s.fst ∧ Q s.snd := by
  induction h with
  | refl => exact ⟨a, ha, hlo, hhi⟩
  | @tail x y _ hxy ih =>
    rcases hcut x.snd with hpast | hbefore
    · exact ih hpast
    · exact ⟨y, hxy.1, hbefore _ hxy.2.2, hhi⟩

theorem IsHull.le (h : IsHull S e) (ha : a ∈ S) : a ≤ e :=
  ⟨h.least.2 ⟨a, ha, rfl⟩, h.greatest.2 ⟨a, ha, rfl⟩⟩

theorem IsHull.unique {e' : NonemptyInterval α} (h : IsHull S e) (h' : IsHull S e') : e = e' := by
  refine NonemptyInterval.ext (Prod.ext ?_ ?_)
  · exact h.least.unique h'.least
  · exact h.greatest.unique h'.greatest

/-! ## Groups -/

/-- The members of `S` are linked with each other and have the hull `e`. -/
structure Group (R S : Set (NonemptyInterval α)) (e : NonemptyInterval α) : Prop where
  subset : S ⊆ R
  linked : ∀ a ∈ S, ∀ b ∈ S, Linked S a b
  hull : IsHull S e

theorem Group.single (hr : r ∈ R) : Group R {r} r where
  subset := Set.singleton_subset_iff.mpr hr
  linked a ha b hb := by
    rw [Set.mem_singleton_iff.mp ha, Set.mem_singleton_iff.mp hb]
    exact .refl
  hull := by
    constructor
    · rw [Set.image_singleton]
      exact isLeast_singleton
    · rw [Set.image_singleton]
      exact isGreatest_singleton

/-- A group has a member at every point of its hull. -/
theorem Group.covers {p : α} (h : Group R S e) (hlo : e.fst ≤ p) (hhi : p ≤ e.snd) :
    ∃ s ∈ S, s.fst ≤ p ∧ p ≤ s.snd := by
  obtain ⟨first, hfirst, hlo'⟩ := h.hull.least.1
  obtain ⟨last, hlast, hhi'⟩ := h.hull.greatest.1
  refine (h.linked first hfirst last hlast).covers (L := (· ≤ p)) (Q := (p ≤ ·)) (fun y => ?_)
    hfirst (hlo'.le.trans hlo) (hhi.trans hhi'.ge)
  rcases le_total p y with hle | hle
  · exact .inl hle
  · exact .inr fun z hz => hz.trans hle

/-- Groups whose hulls touch make one group. -/
theorem Group.union (ha : Group R S a) (hb : Group R U b) (h : Touch a b) :
    Group R (S ∪ U) (a ⊔ b) where
  subset := Set.union_subset ha.subset hb.subset
  linked := by
    -- Both groups have a member at the greater of the two first points.
    obtain ⟨s, hs, hs₁, hs₂⟩ := ha.covers (le_max_left a.fst b.fst) (max_le a.fst_le_snd h.2)
    obtain ⟨u, hu, hu₁, hu₂⟩ := hb.covers (le_max_right a.fst b.fst) (max_le h.1 b.fst_le_snd)
    have hsu : Touch s u := ⟨hs₁.trans hu₂, hu₁.trans hs₂⟩
    have hleft : ∀ x ∈ S, ∀ y ∈ S, Linked (S ∪ U) x y :=
      fun x hx y hy => (ha.linked x hx y hy).mono Set.subset_union_left
    have hright : ∀ x ∈ U, ∀ y ∈ U, Linked (S ∪ U) x y :=
      fun x hx y hy => (hb.linked x hx y hy).mono Set.subset_union_right
    rintro x (hx | hx) y (hy | hy)
    · exact hleft x hx y hy
    · exact ((hleft x hx s hs).tail ⟨.inr hu, hsu⟩).trans (hright u hu y hy)
    · exact ((hright x hx u hu).tail ⟨.inl hs, hsu.symm⟩).trans (hleft s hs y hy)
    · exact hright x hx y hy
  hull := by
    constructor
    · rw [Set.image_union]
      exact ha.hull.least.union hb.hull.least
    · rw [Set.image_union]
      exact ha.hull.greatest.union hb.hull.greatest

/-! ## Merging -/

/-- Every member of `es` is the hull of a group, and every member of `R` is in a group. -/
structure Grouped (R : Set (NonemptyInterval α)) (es : List (NonemptyInterval α)) : Prop where
  group : ∀ e ∈ es, ∃ S, Group R S e
  all : ∀ r ∈ R, ∃ e ∈ es, ∃ S, Group R S e ∧ r ∈ S

namespace Grouped

variable {es es' : List (NonemptyInterval α)}

theorem self (rs : List (NonemptyInterval α)) : Grouped {r | r ∈ rs} rs where
  group e he := ⟨{e}, .single he⟩
  all r hr := ⟨r, hr, {r}, .single hr, rfl⟩

theorem perm (h : Grouped R es) (hp : es.Perm es') : Grouped R es' where
  group e he := h.group e (hp.mem_iff.mpr he)
  all r hr := by
    obtain ⟨e, he, hS⟩ := h.all r hr
    exact ⟨e, hp.mem_iff.mp he, hS⟩

/-- Two intervals that touch are replaced by their hull. -/
theorem merge (h : Grouped R (a :: b :: es)) (htouch : Touch a b) : Grouped R ((a ⊔ b) :: es) := by
  obtain ⟨S, hS⟩ := h.group a List.mem_cons_self
  obtain ⟨U, hU⟩ := h.group b (List.mem_cons_of_mem _ List.mem_cons_self)
  refine ⟨fun e he => ?_, fun r hr => ?_⟩
  · rcases List.mem_cons.mp he with rfl | he
    · exact ⟨S ∪ U, hS.union hU htouch⟩
    · exact h.group e (List.mem_cons_of_mem _ (List.mem_cons_of_mem _ he))
  · obtain ⟨e, he, V, hV, hr⟩ := h.all r hr
    rcases List.mem_cons.mp he with rfl | he
    · exact ⟨_, List.mem_cons_self, V ∪ U, hV.union hU htouch, .inl hr⟩
    · rcases List.mem_cons.mp he with rfl | he
      · exact ⟨_, List.mem_cons_self, S ∪ V, hS.union hV htouch, .inr hr⟩
      · exact ⟨e, List.mem_cons_of_mem _ he, V, hV, hr⟩

/-- Merging keeps the points, here of the intervals without their last point. -/
theorem covers_iff (h : Grouped R es) (p : α) :
    (∃ e ∈ es, e.fst ≤ p ∧ p < e.snd) ↔ ∃ r ∈ R, r.fst ≤ p ∧ p < r.snd := by
  constructor
  · rintro ⟨e, he, hlo, hhi⟩
    obtain ⟨S, hS⟩ := h.group e he
    obtain ⟨first, hfirst, hlo'⟩ := hS.hull.least.1
    obtain ⟨last, hlast, hhi'⟩ := hS.hull.greatest.1
    obtain ⟨r, hr, hin⟩ := (hS.linked first hfirst last hlast).covers
      (fun y => (lt_or_ge p y).imp_right fun hle z hz => hz.trans hle) hfirst
      (hlo'.le.trans hlo) (hhi.trans_eq hhi'.symm)
    exact ⟨r, hS.subset hr, hin⟩
  · rintro ⟨r, hr, hlo, hhi⟩
    obtain ⟨e, he, S, hS, hrS⟩ := h.all r hr
    exact ⟨e, he, (hS.hull.le hrS).1.trans hlo, hhi.trans_le (hS.hull.le hrS).2⟩

/-- When no two intervals are left that touch, a chain stays in its group. -/
theorem chain_le (h : Grouped R es) (hapart : es.Pairwise fun a b => ¬ Touch a b) (he : e ∈ es)
    (hS : Group R S e) (hr : r ∈ S) {x : NonemptyInterval α} (hx : x ∈ chain R r) :
    x ≤ e ∧ ∃ V, Group R V e ∧ x ∈ V := by
  have hsym : Std.Symm fun a b : NonemptyInterval α => ¬ Touch a b :=
    ⟨fun _ _ hnot htouch => hnot htouch.symm⟩
  have hgroup : ∃ V, Group R V e ∧ x ∈ V := by
    induction hx with
    | refl => exact ⟨S, hS, hr⟩
    | @tail x y _ hxy ih =>
      obtain ⟨V, hV, hxV⟩ := ih
      obtain ⟨e', he', W, hW, hyW⟩ := h.all y hxy.1
      have heq : e = e' := by
        by_contra hne
        exact hapart.forall he he' hne (hxy.2.mono (hV.hull.le hxV) (hW.hull.le hyW))
      exact ⟨W, heq ▸ hW, hyW⟩
  obtain ⟨V, hV, hxV⟩ := hgroup
  exact ⟨hV.hull.le hxV, V, hV, hxV⟩

theorem hull_chain (h : Grouped R es) (hapart : es.Pairwise fun a b => ¬ Touch a b) (he : e ∈ es)
    (hS : Group R S e) (hr : r ∈ S) : IsHull (chain R r) e := by
  have hsub : S ⊆ chain R r := fun x hx => (hS.linked r hr x hx).mono hS.subset
  refine ⟨⟨?_, ?_⟩, ⟨?_, ?_⟩⟩
  · exact Set.image_mono hsub hS.hull.least.1
  · rintro _ ⟨x, hx, rfl⟩
    exact (h.chain_le hapart he hS hr hx).1.1
  · exact Set.image_mono hsub hS.hull.greatest.1
  · rintro _ ⟨x, hx, rfl⟩
    exact (h.chain_le hapart he hS hr hx).1.2

/-- When no two intervals are left that touch, they are the hulls of the maximal chains. -/
theorem mem_iff_hulls (h : Grouped R es) (hapart : es.Pairwise fun a b => ¬ Touch a b) :
    e ∈ es ↔ e ∈ hulls R := by
  constructor
  · intro he
    obtain ⟨S, hS⟩ := h.group e he
    obtain ⟨r, hr, -⟩ := hS.hull.least.1
    exact ⟨r, hS.subset hr, h.hull_chain hapart he hS hr⟩
  · rintro ⟨r, hr, hhull⟩
    obtain ⟨e', he', S, hS, hrS⟩ := h.all r hr
    rw [hhull.unique (h.hull_chain hapart he' hS hrS)]
    exact he'

/-- The intervals that are left begin where a member of `R` begins and no member of `R`
    goes on. -/
theorem starts_iff (h : Grouped R es) (hapart : es.Pairwise fun a b => ¬ Touch a b) (p : α) :
    (∃ e ∈ es, e.fst = p) ↔
      (∃ r ∈ R, r.fst = p) ∧ ∀ r ∈ R, ¬ (r.fst < p ∧ p ≤ r.snd) := by
  have hsym : Std.Symm fun a b : NonemptyInterval α => ¬ Touch a b :=
    ⟨fun _ _ hnot htouch => hnot htouch.symm⟩
  constructor
  · rintro ⟨e, he, rfl⟩
    obtain ⟨S, hS⟩ := h.group e he
    obtain ⟨first, hfirst, hlo⟩ := hS.hull.least.1
    refine ⟨⟨first, hS.subset hfirst, hlo⟩, fun r hr hbehind => ?_⟩
    obtain ⟨e', he', U, hU, hrU⟩ := h.all r hr
    have hle := hU.hull.le hrU
    have heq : e = e' := by
      by_contra hne
      refine hapart.forall he he' hne ⟨hbehind.2.trans hle.2, ?_⟩
      exact hle.1.trans (hbehind.1.le.trans e.fst_le_snd)
    subst heq
    exact absurd hbehind.1 (not_lt_of_ge hle.1)
  · rintro ⟨⟨r, hr, rfl⟩, hnone⟩
    obtain ⟨e, he, S, hS, hrS⟩ := h.all r hr
    refine ⟨e, he, (hS.hull.le hrS).1.antisymm (le_of_not_gt fun hlt => ?_)⟩
    -- Otherwise the chain comes from the left of `r` and has a member across its start.
    obtain ⟨first, hfirst, hlo⟩ := hS.hull.least.1
    obtain ⟨s, hs, hbehind⟩ := (hS.linked first hfirst r hrS).covers
      (fun y => (le_or_gt r.fst y).imp_right fun hlt z hz => hz.trans_lt hlt) hfirst
      (hlo.trans_lt hlt) r.fst_le_snd
    exact hnone s (hS.subset hs) hbehind

end Grouped

end Library
