import FuzzyControl.Proofs.Results
import FuzzyControl.Proofs.FuzzySet.Validity

/-!
# Unions of lists of sets

The union of a list goes through the list and can fail at every step. Each step keeps the grid of
the first set, so one comparison with that grid decides each step; and each place of the union is
what the same walk makes of the memberships in that place alone.

* `memberships_unionAll`: the union place by place;
* `unionAll_isOk_iff`: it exists iff any two of the sets are on one grid;
* `unionAll_cons_eq_error_iff`: else it fails at the first set on another grid than the first one;
* `Valid.unionAll`: the union of valid sets is valid.
-/

namespace FuzzyControl.FuzzySet

open Double Results

/-! ## 1. The walk through the list -/

theorem getElem?_zipWith_greatest (xs ys : List Float) (h : xs.length = ys.length) (i : Nat)
    (zs : List Float) :
    greatest? ((List.zipWith greatest xs ys)[i]?.toList ++ zs) =
      greatest? (xs[i]?.toList ++ (ys[i]?.toList ++ zs)) := by
  by_cases hi : i < xs.length
  · have hi' : i < ys.length := h ▸ hi
    rw [List.getElem?_eq_getElem (by simp [hi, hi']), List.getElem?_eq_getElem hi,
      List.getElem?_eq_getElem hi', List.getElem_zipWith]
    rfl
  · rw [List.getElem?_eq_none (by simp; omega), List.getElem?_eq_none (by omega),
      List.getElem?_eq_none (by omega)]
    rfl

/-- The memberships that a list of sets has in one place. -/
def column (sets : List FuzzySet) (i : Nat) : List Float :=
  sets.flatMap fun s => s.memberships[i]?.toList

/-- What a union of a list has been made of: every set is on the grid of the first one, which gives
the name, and every place holds the greatest membership. -/
theorem foldlM_union_eq_ok {s u : FuzzySet} {sets : List FuzzySet}
    (h : sets.foldlM union s = .ok u) :
    (∀ t ∈ sets, s.sameGrid t = true) ∧ u.name = s.name ∧ u.grid = s.grid ∧
      ∀ i, u.memberships[i]? = greatest? (column (s :: sets) i) := by
  induction sets generalizing s with
  | nil =>
    cases h
    refine ⟨by simp, rfl, rfl, fun i => ?_⟩
    cases hi : u.memberships[i]? <;> simp [column, hi, greatest?]
  | cons t rest ih =>
    rw [List.foldlM_cons] at h
    cases hst : s.union t with
    | error fault => rw [hst] at h; cases h
    | ok s' =>
      rw [hst] at h
      have hgrid := (zipMembership_isOk_iff greatest s t).1 ⟨s', hst⟩
      obtain ⟨hname', hgrid', hmem'⟩ := zipMembership_eq_ok hst
      obtain ⟨hall, hname, hug, hmem⟩ := ih h
      have hlen : s.memberships.length = t.memberships.length := by
        simpa using ((sameGrid_iff s t).1 hgrid).length_eq
      refine ⟨?_, hname.trans hname', hug.trans hgrid', fun i => ?_⟩
      · intro t' ht'
        rcases List.mem_cons.1 ht' with rfl | ht'
        · exact hgrid
        · rw [sameGrid_congr hgrid'.symm rfl]
          exact hall t' ht'
      · rw [hmem i]
        show greatest? (s'.memberships[i]?.toList ++ column rest i) = _
        rw [hmem', getElem?_zipWith_greatest _ _ hlen]
        rfl

/-- The fault of joining a set with one on another grid. -/
def Differs (s t : FuzzySet) (fault : Fault) : Prop :=
  s.sameGrid t = false ∧ fault = .domainMismatch s.name t.name

theorem differs_iff {s t : FuzzySet} {fault : Fault} :
    s.Differs t fault ↔ ¬ s.SharesGrid t ∧ fault = .domainMismatch s.name t.name := by
  rw [Differs, sameGrid_eq_false_iff]

theorem differs_congr {s s' t t' : FuzzySet} (hs : s.name = s'.name) (hsgrid : s.grid = s'.grid)
    (ht : t.name = t'.name) (htgrid : t.grid = t'.grid) (fault : Fault) :
    s.Differs t fault ↔ s'.Differs t' fault := by
  unfold Differs
  rw [sameGrid_congr hsgrid htgrid, hs, ht]

/-- Sets are not joined iff they are not on one grid. -/
theorem zipMembership_eq_error_iff {f : Float → Float → Float} {s t : FuzzySet} {fault : Fault} :
    zipMembership f s t = .error fault ↔ s.Differs t fault := by
  unfold zipMembership Differs
  cases s.sameGrid t <;> simp [eq_comm]

theorem union_eq_error_iff {s t : FuzzySet} {fault : Fault} :
    s.union t = .error fault ↔ s.Differs t fault :=
  zipMembership_eq_error_iff

/-- The walk fails at the first set that is not on the grid of the set it starts from. -/
theorem foldlM_union_eq_error_iff {s : FuzzySet} {sets : List FuzzySet} {fault : Fault} :
    sets.foldlM union s = .error fault ↔ First s.Differs sets fault := by
  induction sets generalizing s with
  | nil => exact ⟨nofun, nofun⟩
  | cons t rest ih =>
    -- the union so far differs from the later sets as the first set does
    have hrest : ∀ s', s.union t = .ok s' →
        (rest.foldlM union s' = .error fault ↔ First s.Differs rest fault) := by
      intro s' hst
      obtain ⟨hname, hgrid, -⟩ := zipMembership_eq_ok hst
      rw [ih]
      exact first_congr fun t' _ => differs_congr hname hgrid rfl rfl
    rw [List.foldlM_cons, bind_eq_error_iff, first_cons_iff]
    simp only [← union_eq_error_iff, ← isOk_iff_forall_ne_error, ← exists_and_right]
    exact or_congr_right (exists_congr fun s' => and_congr_right (hrest s'))

theorem foldlM_union_isOk {s : FuzzySet} {sets : List FuzzySet}
    (h : ∀ t ∈ sets, s.sameGrid t = true) : ∃ u, sets.foldlM union s = .ok u := by
  rw [isOk_iff_forall_ne_error]
  intro fault hfault
  obtain ⟨t, ht, hdiffers, -⟩ := (foldlM_union_eq_error_iff.1 hfault).exists_mem
  rw [h t ht] at hdiffers
  cases hdiffers

/-! ## 2. Unions -/

theorem unionAll_cons_eq_ok {s : FuzzySet} {sets : List FuzzySet} {u : Option FuzzySet} :
    unionAll (s :: sets) = .ok u ↔ ∃ v, sets.foldlM union s = .ok v ∧ u = some v := by
  show (sets.foldlM union s).map some = .ok u ↔ _
  cases sets.foldlM union s with
  | error fault => simp [Except.map]
  | ok v => simp [Except.map, eq_comm]

theorem unionAll_cons_eq_error_iff {s : FuzzySet} {sets : List FuzzySet} {fault : Fault} :
    unionAll (s :: sets) = .error fault ↔ First s.Differs sets fault := by
  rw [← foldlM_union_eq_error_iff]
  show (sets.foldlM union s).map some = .error fault ↔ _
  cases sets.foldlM union s <;> simp [Except.map]

theorem unionAll_eq_none (sets : List FuzzySet) : unionAll sets = .ok none ↔ sets = [] := by
  cases sets with
  | nil => simp [unionAll]
  | cons s rest => simp [unionAll_cons_eq_ok]

/-- The union has the grid of the first set. -/
theorem grid_unionAll {sets : List FuzzySet} {u : FuzzySet} (h : unionAll sets = .ok (some u)) :
    ∃ s, sets.head? = some s ∧ u.grid = s.grid := by
  cases sets with
  | nil => cases h
  | cons s rest =>
    obtain ⟨_, hv, ⟨⟩⟩ := unionAll_cons_eq_ok.1 h
    exact ⟨s, rfl, (foldlM_union_eq_ok hv).2.2.1⟩

/-- A union has as many places as each of the sets. -/
theorem length_unionAll {sets : List FuzzySet} {u : FuzzySet} (h : unionAll sets = .ok (some u)) :
    ∀ t ∈ sets, t.memberships.length = u.memberships.length := by
  cases sets with
  | nil => cases h
  | cons s rest =>
    obtain ⟨_, hv, ⟨⟩⟩ := unionAll_cons_eq_ok.1 h
    obtain ⟨hall, -, hgrid, -⟩ := foldlM_union_eq_ok hv
    have hlen : u.memberships.length = s.memberships.length := by
      rw [length_memberships, length_memberships, ← length_grid, hgrid, length_grid]
    intro t ht
    rcases List.mem_cons.1 ht with rfl | ht
    · exact hlen.symm
    · have hst := ((sameGrid_iff s t).1 (hall t ht)).length_eq
      rw [hlen, length_memberships, length_memberships, ← length_grid, ← length_grid, hst]

/-- **Every place of the union holds the greatest membership in that place.** -/
theorem memberships_unionAll {sets : List FuzzySet} {u : FuzzySet}
    (h : unionAll sets = .ok (some u)) (i : Nat) :
    u.memberships[i]? = greatest? (column sets i) := by
  cases sets with
  | nil => cases h
  | cons s rest =>
    obtain ⟨_, hv, ⟨⟩⟩ := unionAll_cons_eq_ok.1 h
    exact (foldlM_union_eq_ok hv).2.2.2 i

/-- **A union exists iff any two of the sets are on one grid**, whatever their order. -/
theorem unionAll_isOk_iff {sets : List FuzzySet} (h : ∀ s ∈ sets, ∀ x ∈ s.grid, x.isNaN = false) :
    (∃ u, unionAll sets = .ok u) ↔ ∀ s ∈ sets, ∀ t ∈ sets, s.sameGrid t = true := by
  cases sets with
  | nil => exact ⟨fun _ => by simp, fun _ => ⟨none, rfl⟩⟩
  | cons s rest =>
    constructor
    · intro h
      obtain ⟨u, hu⟩ := h
      obtain ⟨v, hv, -⟩ := unionAll_cons_eq_ok.1 hu
      have hfirst : ∀ t ∈ s :: rest, s.sameGrid t = true := by
        intro t ht
        rcases List.mem_cons.1 ht with rfl | ht
        · exact sameGrid_refl (h t List.mem_cons_self)
        · exact (foldlM_union_eq_ok hv).1 t ht
      intro t ht t' ht'
      exact sameGrid_of_left (hfirst t ht) (hfirst t' ht')
    · intro hall
      obtain ⟨v, hv⟩ := foldlM_union_isOk fun t ht =>
        hall s List.mem_cons_self t (List.mem_cons_of_mem _ ht)
      exact ⟨some v, unionAll_cons_eq_ok.2 ⟨v, hv, rfl⟩⟩

theorem mem_column {sets : List FuzzySet} {i : Nat} {m : Float} :
    m ∈ column sets i ↔ ∃ s ∈ sets, s.memberships[i]? = some m := by
  simp [column]

theorem Valid.unionAll {sets : List FuzzySet} {u : FuzzySet} (hs : ∀ s ∈ sets, s.Valid)
    (h : FuzzySet.unionAll sets = .ok (some u)) : u.Valid := by
  obtain ⟨s, hhead, hgrid⟩ := grid_unionAll h
  refine (hs s (List.mem_of_mem_head? hhead)).of_grid hgrid ?_
  intro m hm
  obtain ⟨i, hi⟩ := List.mem_iff_getElem?.1 hm
  rw [memberships_unionAll h i] at hi
  obtain ⟨t, ht, htm⟩ := mem_column.1 (mem_of_greatest? hi)
  exact (hs t ht).inUnit m (List.mem_of_getElem? htm)

end FuzzyControl.FuzzySet
