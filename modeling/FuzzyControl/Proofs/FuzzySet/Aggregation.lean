import FuzzyControl.Proofs.FuzzySet.Union

/-!
# The aggregate of a list of sets

The union of a list is taken from left to right, and each step may fail. What comes out does not
show that: the sets are on one grid or they are not, and in every place stands the greatest
membership. Only the name, and the signs of zeros, are those of the set that comes first.

* `Mismatch`: the fault of sets that are not on one grid;
* `Aggregates`: what the union of a list is, without its order;
* `Aggregates.sameSamples`: aggregates of the same sets have equal samples;
* `unionAll_append`: the union of a beginning can stand for it;
* `unionAll_aggregates`: the outcome of the union of a list.
-/

namespace FuzzyControl.FuzzySet

open Double Results

variable {sets sets' : List FuzzySet} {u u' : FuzzySet}

/-! ## 1. What the union of a list is -/

/-- A fault names the first set, and the first one that is not on the grid of that. -/
def Mismatch (sets : List FuzzySet) (fault : Fault) : Prop :=
  ∃ s before t after, sets = s :: (before ++ t :: after) ∧ (∀ r ∈ before, s.SharesGrid r) ∧
    ¬ s.SharesGrid t ∧ fault = .domainMismatch s.name t.name

/-- The aggregate of some sets has the name and the grid of the first one, and in every place the
greatest of their memberships. -/
structure Aggregates (sets : List FuzzySet) (u : FuzzySet) : Prop where
  first : ∃ s, sets.head? = some s ∧ u.name = s.name ∧ u.grid = s.grid
  /-- It is the membership of some set. -/
  attained : ∀ (i : Nat) (m : Float), u.memberships[i]? = some m →
    ∃ t ∈ sets, t.memberships[i]? = some m
  /-- Every set has a membership there, and none is above it. -/
  highest : ∀ (i : Nat) (m : Float), u.memberships[i]? = some m →
    ∀ t ∈ sets, ∃ n, t.memberships[i]? = some n ∧ n ≤ m

theorem aggregates_unionAll (hvalid : ∀ s ∈ sets, s.Valid) (h : unionAll sets = .ok (some u)) :
    Aggregates sets u where
  first := by
    cases sets with
    | nil => cases h
    | cons s rest =>
      obtain ⟨_, hv, ⟨⟩⟩ := unionAll_cons_eq_ok.1 h
      obtain ⟨-, hname, hgrid, -⟩ := foldlM_union_eq_ok hv
      exact ⟨s, rfl, hname, hgrid⟩
  attained i m hm := by
    rw [memberships_unionAll h] at hm
    exact mem_column.1 (mem_of_greatest? hm)
  highest i m hm t ht := by
    have hi : i < t.memberships.length := by
      rw [length_unionAll h t ht]
      exact (List.getElem?_eq_some_iff.1 hm).1
    refine ⟨_, List.getElem?_eq_getElem hi, ?_⟩
    rw [memberships_unionAll h] at hm
    refine le_of_greatest? (fun n hn => ?_) hm _ (mem_column.2 ⟨t, ht, List.getElem?_eq_getElem hi⟩)
    obtain ⟨r, hr, hrn⟩ := mem_column.1 hn
    exact ((hvalid r hr).inUnit n (List.mem_of_getElem? hrn)).isNaN

/-- The aggregate of more sets is not below that of fewer. -/
theorem Aggregates.le (h : Aggregates sets u) (h' : Aggregates sets' u')
    (hsub : ∀ t ∈ sets, t ∈ sets') {i : Nat} {m m' : Float} (hm : u.memberships[i]? = some m)
    (hm' : u'.memberships[i]? = some m') : m ≤ m' := by
  obtain ⟨t, ht, htm⟩ := h.attained i m hm
  obtain ⟨n, hn, hle⟩ := h'.highest i m' hm' t (hsub t ht)
  obtain rfl : m = n := Option.some.inj (htm.symm.trans hn)
  exact hle

/-- **Aggregates of the same sets have equal samples**, whatever the order of the sets. -/
theorem Aggregates.sameSamples (h : Aggregates sets u) (h' : Aggregates sets' u')
    (hmem : ∀ t, t ∈ sets ↔ t ∈ sets') (hone : ∀ s ∈ sets, ∀ t ∈ sets, s.SharesGrid t) :
    u.SameSamples u' := by
  obtain ⟨s, hs, -, hgrid⟩ := h.first
  obtain ⟨s', hs', -, hgrid'⟩ := h'.first
  have hshared : u.SharesGrid u' := by
    rw [SharesGrid, hgrid, hgrid']
    exact hone s (List.mem_of_mem_head? hs) s' ((hmem s').2 (List.mem_of_mem_head? hs'))
  refine sameSamples_iff.2 ⟨hshared, List.forall₂_iff_get.2 ⟨?_, fun i hi hi' => ?_⟩⟩
  · simpa using hshared.length_eq
  · have hm := List.getElem?_eq_getElem hi
    have hm' := List.getElem?_eq_getElem hi'
    exact beq_of_le_of_le (h.le h' (fun t => (hmem t).1) hm hm')
      (h'.le h (fun t => (hmem t).2) hm' hm)

/-! ## 2. When there is one -/

/-- **The union of a list fails with the names of the first set and of the first one on another
grid.** -/
theorem unionAll_eq_error_iff {fault : Fault} :
    unionAll sets = .error fault ↔ Mismatch sets fault := by
  cases sets with
  | nil => exact ⟨nofun, fun ⟨_, _, _, _, h, _⟩ => nomatch h⟩
  | cons s rest =>
    have hshares : ∀ r : FuzzySet, (∀ fault, ¬ s.Differs r fault) ↔ s.SharesGrid r := by
      intro r
      simp only [differs_iff, not_and]
      exact ⟨fun h => by_contra fun hr => h _ hr rfl, fun h _ hr => absurd h hr⟩
    rw [unionAll_cons_eq_error_iff, first_iff_exists_append]
    simp only [hshares]
    simp only [differs_iff]
    constructor
    · intro h
      obtain ⟨before, t, after, rfl, hbefore, ht⟩ := h
      exact ⟨s, before, t, after, rfl, hbefore, ht⟩
    · intro h
      obtain ⟨s', before, t, after, heq, hbefore, ht⟩ := h
      obtain ⟨rfl, rfl⟩ := List.cons.inj heq
      exact ⟨before, t, after, rfl, hbefore, ht⟩

/-- There is a union iff the sets are on one grid. -/
theorem unionAll_isOk_iff_sharesGrid (hvalid : ∀ s ∈ sets, s.Valid) :
    (∃ u, unionAll sets = .ok u) ↔ ∀ s ∈ sets, ∀ t ∈ sets, s.SharesGrid t := by
  simp only [unionAll_isOk_iff fun s hs => (hvalid s hs).isNaN_grid, sameGrid_eq_true_iff]

theorem exists_unionAll (hvalid : ∀ s ∈ sets, s.Valid) (hne : sets ≠ [])
    (hone : ∀ s ∈ sets, ∀ t ∈ sets, s.SharesGrid t) : ∃ u, unionAll sets = .ok (some u) := by
  obtain ⟨u, hu⟩ := (unionAll_isOk_iff_sharesGrid hvalid).2 hone
  cases u with
  | none => exact absurd ((unionAll_eq_none sets).1 hu) hne
  | some u => exact ⟨u, hu⟩

/-- The union of a list goes on from the union of a beginning of it. -/
theorem unionAll_append {before : List FuzzySet} (hne : before ≠ []) (after : List FuzzySet) :
    (unionAll before >>= fun u => unionAll (u.toList ++ after)) = unionAll (before ++ after) := by
  cases before with
  | nil => exact absurd rfl hne
  | cons s rest =>
    show ((rest.foldlM union s).map some >>= _) = ((rest ++ after).foldlM union s).map some
    rw [List.foldlM_append]
    cases rest.foldlM union s <;> rfl

/-! ## 3. The outcome -/

/-- **The union of a list of sets.** There is none without sets; sets that are not on one grid fail
with the names of the first one and of the first that differs from it; and all other sets have an
aggregate. So a single set is its own union, the order of the sets matters neither for success nor
for the samples, and the union of a beginning can stand for it. -/
theorem unionAll_aggregates (sets : List FuzzySet) (hvalid : ∀ s ∈ sets, s.Valid) :
    (unionAll sets = .ok none ↔ sets = []) ∧
    ((∃ fault, unionAll sets = .error fault) ↔ ∃ s ∈ sets, ∃ t ∈ sets, ¬ s.SharesGrid t) ∧
    (∀ fault, unionAll sets = .error fault ↔ Mismatch sets fault) ∧
    (sets ≠ [] → (∀ s ∈ sets, ∀ t ∈ sets, s.SharesGrid t) →
      ∃ u, unionAll sets = .ok (some u) ∧ Aggregates sets u) ∧
    (∀ s, sets = [s] → unionAll sets = .ok (some s)) ∧
    (∀ sets', sets.Perm sets' →
      ((∃ u, unionAll sets = .ok u) ↔ ∃ u', unionAll sets' = .ok u') ∧
      ∀ u u', unionAll sets = .ok (some u) → unionAll sets' = .ok (some u') → u.SameSamples u') ∧
    ∀ before after, before ≠ [] → sets = before ++ after →
      (unionAll before >>= fun u => unionAll (u.toList ++ after)) = unionAll sets := by
  refine ⟨unionAll_eq_none sets, ?_, fun _ => unionAll_eq_error_iff, fun hne hone => ?_, ?_,
    fun sets' hperm => ?_, ?_⟩
  · have hfault : (∃ fault, unionAll sets = .error fault) ↔ ¬ ∃ u, unionAll sets = .ok u := by
      rw [isOk_iff_forall_ne_error]
      exact not_forall_not.symm
    rw [hfault, unionAll_isOk_iff_sharesGrid hvalid]
    push Not
    rfl
  · obtain ⟨u, hu⟩ := exists_unionAll hvalid hne hone
    exact ⟨u, hu, aggregates_unionAll hvalid hu⟩
  · intro s hs
    subst hs
    rfl
  · have hmem : ∀ t, t ∈ sets ↔ t ∈ sets' := fun t => hperm.mem_iff
    have hvalid' : ∀ s ∈ sets', s.Valid := fun s hs => hvalid s ((hmem s).2 hs)
    refine ⟨?_, fun u u' hu hu' => ?_⟩
    · rw [unionAll_isOk_iff_sharesGrid hvalid, unionAll_isOk_iff_sharesGrid hvalid']
      simp only [hmem]
    · exact (aggregates_unionAll hvalid hu).sameSamples (aggregates_unionAll hvalid' hu') hmem
        ((unionAll_isOk_iff_sharesGrid hvalid).1 ⟨_, hu⟩)
  · intro before after hne hsets
    subst hsets
    exact unionAll_append hne after

def low : FuzzySet := ⟨"low", [⟨0, 0.75⟩, ⟨1, 0⟩]⟩

def high : FuzzySet := ⟨"high", [⟨-0.0, 0.25⟩, ⟨1, 1⟩]⟩

/-- Two sets, the other way round: the name and the sign of the zero change, and nothing else. -/
theorem unionAll_aggregates_low : (∀ s ∈ [low, high], s.Valid) ∧ [low, high].Perm [high, low] ∧
    unionAll [low, high] = .ok (some ⟨"low", [⟨0, 0.75⟩, ⟨1, 1⟩]⟩) ∧
    unionAll [high, low] = .ok (some ⟨"high", [⟨-0.0, 0.75⟩, ⟨1, 1⟩]⟩) ∧
    SameSamples ⟨"low", [⟨0, 0.75⟩, ⟨1, 1⟩]⟩ ⟨"high", [⟨-0.0, 0.75⟩, ⟨1, 1⟩]⟩ := by
  have hvalid : ∀ s ∈ [low, high], s.Valid := by decide
  have hperm : [low, high].Perm [high, low] := .swap _ _ _
  exact ⟨hvalid, hperm, rfl, rfl,
    ((unionAll_aggregates _ hvalid).2.2.2.2.2.1 _ hperm).2 _ _ rfl rfl⟩

end FuzzyControl.FuzzySet
