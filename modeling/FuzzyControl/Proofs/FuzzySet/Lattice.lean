import FuzzyControl.Proofs.FuzzySet.Levels
import FuzzyControl.Proofs.FuzzySet.Union

/-!
# The lattice of the sets on a grid

Union and intersection fail on different grids, so a law of theirs is about two computations of
several steps: every step has to succeed, and the sets at the end have to have equal samples. A
computation on one grid succeeds and gives the levels that the same computation gives among
functions. So the laws are those of functions, with union for the join and intersection for the
meet, or the other way round.

* `Agree`, `LatticeLaws`: the laws, as statements about computations that can fail;
* `Gives`, `Lifts`: a computation on one grid, and what it is read as;
* `latticeLaws`: what is read in a distributive lattice fulfils the laws;
* `distributive_lattice`: union and intersection form one on each grid;
* `Turns`, `deMorgan`: the complement turns each of them into the other.
-/

namespace FuzzyControl.FuzzySet

open Double OrderDual

variable {a b c s t u v : FuzzySet} {x y : Except Fault FuzzySet}

/-! ## 1. Laws of operations that can fail -/

/-- Both computations succeed, with equal samples. -/
def Agree (x y : Except Fault FuzzySet) : Prop :=
  ∃ u v, x = .ok u ∧ y = .ok v ∧ u.SameSamples v

/-- The laws of a distributive lattice for one operation and the one dual to it, at three sets. -/
structure LatticeLaws (join meet : FuzzySet → FuzzySet → Except Fault FuzzySet)
    (a b c : FuzzySet) : Prop where
  comm : Agree (join a b) (join b a)
  assoc : Agree (join a b >>= fun u => join u c) (join b c >>= fun u => join a u)
  idem : Agree (join a a) (.ok a)
  absorb : Agree (meet a b >>= fun u => join a u) (.ok a)
  distrib : Agree (meet b c >>= fun u => join a u)
    (join a b >>= fun u => join a c >>= fun v => meet u v)

/-! ## 2. Computations on one grid -/

section Reading

variable {L : Type} {read : FuzzySet → L} {l m : L}

/-- A computation gives a valid set on the grid of `s` that is read as `l`. -/
def Gives (read : FuzzySet → L) (s : FuzzySet) (x : Except Fault FuzzySet) (l : L) : Prop :=
  ∃ u, x = .ok u ∧ u.Valid ∧ s.SharesGrid u ∧ read u = l

/-- An operation on valid sets of one grid succeeds there, and is read as `op`. -/
def Lifts (read : FuzzySet → L) (f : FuzzySet → FuzzySet → Except Fault FuzzySet)
    (op : L → L → L) : Prop :=
  ∀ s t, s.Valid → t.Valid → s.SharesGrid t → Gives read s (f s t) (op (read s) (read t))

/-- What is read tells the samples of sets on one grid. -/
def Tells (read : FuzzySet → L) : Prop :=
  ∀ s t, s.Valid → t.Valid → s.SharesGrid t → read s = read t → s.SameSamples t

theorem gives_ok (ht : t.Valid) (h : s.SharesGrid t) : Gives read s (.ok t) (read t) :=
  ⟨t, rfl, ht, h, rfl⟩

/-- A computation goes on with an operation and the result of another one. -/
theorem Gives.lift {f : FuzzySet → FuzzySet → Except Fault FuzzySet} {op : L → L → L}
    (hx : Gives read s x l) (hf : Lifts read f op) (hy : Gives read s y m) :
    Gives read s (x >>= fun u => y >>= fun v => f u v) (op l m) := by
  obtain ⟨u, rfl, hu, hsu, rfl⟩ := hx
  obtain ⟨v, rfl, hv, hsv, rfl⟩ := hy
  obtain ⟨w, hw, hvalid, huw, hread⟩ := hf u v hu hv (hsu.of_left hsv)
  exact ⟨w, hw, hvalid, hsu.trans huw, hread⟩

/-- Computations on one grid that are read as the same agree. -/
theorem Gives.agree (htells : Tells read) (hx : Gives read s x l) (hy : Gives read s y m)
    (h : l = m) : Agree x y := by
  obtain ⟨u, rfl, hu, hsu, rfl⟩ := hx
  obtain ⟨v, rfl, hv, hsv, rfl⟩ := hy
  exact ⟨u, v, rfl, rfl, htells u v hu hv (hsu.of_left hsv) h⟩

/-- **Operations that are read as those of a distributive lattice have its laws.** -/
theorem latticeLaws [DistribLattice L] {join meet : FuzzySet → FuzzySet → Except Fault FuzzySet}
    (htells : Tells read) (hjoin : Lifts read join (· ⊔ ·)) (hmeet : Lifts read meet (· ⊓ ·))
    (ha : a.Valid) (hb : b.Valid) (hc : c.Valid) (hab : a.SharesGrid b) (hac : a.SharesGrid c) :
    LatticeLaws join meet a b c := by
  have ga : Gives read a (.ok a) (read a) := gives_ok ha ha.sharesGrid_self
  have gb : Gives read a (.ok b) (read b) := gives_ok hb hab
  have gc : Gives read a (.ok c) (read c) := gives_ok hc hac
  have gab := ga.lift hjoin gb
  have gac := ga.lift hjoin gc
  exact {
    comm := gab.agree htells (gb.lift hjoin ga) (sup_comm _ _)
    assoc := (gab.lift hjoin gc).agree htells (ga.lift hjoin (gb.lift hjoin gc)) (sup_assoc _ _ _)
    idem := (ga.lift hjoin ga).agree htells ga (sup_idem _)
    absorb := (ga.lift hjoin (ga.lift hmeet gb)).agree htells ga sup_inf_self
    distrib := (ga.lift hjoin (gb.lift hmeet gc)).agree htells (gab.lift hmeet gac)
      (sup_inf_left _ _ _) }

end Reading

/-! ## 3. Union and intersection -/

theorem tells_level : Tells level := fun _ _ hs ht hgrid h =>
  sameSamples_of_level hs ht hgrid fun i _ => congrFun h i

/-- Joining sets place by place succeeds on one grid, and is read as what it does to the levels. -/
theorem lifts_zipMembership {f : Float → Float → Float} {op : (Nat → ℚ) → (Nat → ℚ) → Nat → ℚ}
    (hvalid : ∀ {s t u : FuzzySet}, s.Valid → t.Valid → zipMembership f s t = .ok u → u.Valid)
    (hlevel : ∀ {s t u : FuzzySet}, s.Valid → t.Valid → zipMembership f s t = .ok u →
      u.level = op s.level t.level) : Lifts level (zipMembership f) op := by
  intro s t hs ht hgrid
  obtain ⟨u, hu⟩ := (zipMembership_isOk_iff f s t).2 (sameGrid_eq_true_iff.2 hgrid)
  exact ⟨u, hu, hvalid hs ht hu, hs.sharesGrid_of_grid (zipMembership_eq_ok hu).2.1,
    hlevel hs ht hu⟩

theorem lifts_union : Lifts level union (· ⊔ ·) :=
  lifts_zipMembership Valid.union level_union

theorem lifts_intersection : Lifts level intersection (· ⊓ ·) :=
  lifts_zipMembership Valid.intersection level_intersection

/-- An operation that is read as a meet is read as a join in the order turned round. -/
theorem Lifts.dual {L : Type} {read : FuzzySet → L} {op : L → L → L}
    {f : FuzzySet → FuzzySet → Except Fault FuzzySet} (h : Lifts read f op) :
    Lifts (fun s => toDual (read s)) f fun l m => toDual (op (ofDual l) (ofDual m)) := by
  intro s t hs ht hgrid
  obtain ⟨u, hu, hvalid, hsu, hread⟩ := h s t hs ht hgrid
  exact ⟨u, hu, hvalid, hsu, congrArg toDual hread⟩

theorem union_laws (ha : a.Valid) (hb : b.Valid) (hc : c.Valid) (hab : a.SharesGrid b)
    (hac : a.SharesGrid c) : LatticeLaws union intersection a b c :=
  latticeLaws tells_level lifts_union lifts_intersection ha hb hc hab hac

/-- The order of the levels is turned round, since `latticeLaws` reads the first operation as the
join. -/
theorem intersection_laws (ha : a.Valid) (hb : b.Valid) (hc : c.Valid) (hab : a.SharesGrid b)
    (hac : a.SharesGrid c) : LatticeLaws intersection union a b c :=
  latticeLaws (fun s t hs ht hgrid h => tells_level s t hs ht hgrid (toDual.injective h))
    lifts_intersection.dual lifts_union.dual ha hb hc hab hac

theorem level_le_height (hs : s.Valid) (i : Nat) : s.level i ≤ value s.height :=
  (value_height_le_iff hs _).1 le_rfl i

/-- The height of a union is the greater of the heights. -/
theorem height_union (ha : a.Valid) (hb : b.Valid) (h : a.union b = .ok u) :
    (u.height == greatest a.height b.height) = true := by
  have hheights := ha.inUnit_height.greatest hb.inUnit_height
  refine (beq_iff _ _).2 ⟨(ha.union hb h).inUnit_height.isNaN, hheights.isNaN, ?_⟩
  rw [value_greatest ha.inUnit_height.isNaN hb.inUnit_height.isNaN]
  refine eq_of_forall_ge_iff fun q => ?_
  rw [value_height_le_iff (ha.union hb h), level_union ha hb h, max_le_iff,
    value_height_le_iff ha, value_height_le_iff hb, ← forall_and]
  exact forall_congr' fun i => sup_le_iff

/-- An intersection is no higher than either set. -/
theorem height_intersection_le (ha : a.Valid) (hb : b.Valid) (h : a.intersection b = .ok v) :
    v.height ≤ least a.height b.height := by
  have hheights := ha.inUnit_height.least hb.inUnit_height
  refine (le_iff _ _).2 ⟨(ha.intersection hb h).inUnit_height.isNaN, hheights.isNaN, ?_⟩
  rw [value_least ha.inUnit_height.isNaN hb.inUnit_height.isNaN,
    value_height_le_iff (ha.intersection hb h), level_intersection ha hb h]
  exact fun i => inf_le_inf (level_le_height ha i) (level_le_height hb i)

/-- **Union and intersection form a distributive lattice on each grid.** They fail iff the grids
differ; the result has the name and the grid of the left set; and on one grid they have the laws of
a distributive lattice, up to the signs of zeros. A union is as high as the higher set, and an
intersection at most as high as the lower one. -/
theorem distributive_lattice (a b c : FuzzySet) (ha : a.Valid) (hb : b.Valid) (hc : c.Valid) :
    (∀ fault, a.union b = .error fault ↔
      ¬ a.SharesGrid b ∧ fault = .domainMismatch a.name b.name) ∧
    (∀ fault, a.intersection b = .error fault ↔
      ¬ a.SharesGrid b ∧ fault = .domainMismatch a.name b.name) ∧
    (∀ u, a.union b = .ok u ∨ a.intersection b = .ok u → u.name = a.name ∧ u.grid = a.grid) ∧
    (a.SharesGrid b → a.SharesGrid c →
      LatticeLaws union intersection a b c ∧ LatticeLaws intersection union a b c ∧
      ∃ u v, a.union b = .ok u ∧ a.intersection b = .ok v ∧
        (u.height == greatest a.height b.height) = true ∧
        v.height ≤ least a.height b.height) := by
  refine ⟨fun fault => union_eq_error_iff.trans differs_iff,
    fun fault => zipMembership_eq_error_iff.trans differs_iff, ?_, ?_⟩
  · intro u hu
    rcases hu with hu | hu
    · exact ⟨(zipMembership_eq_ok hu).1, (zipMembership_eq_ok hu).2.1⟩
    · exact ⟨(zipMembership_eq_ok hu).1, (zipMembership_eq_ok hu).2.1⟩
  · intro hab hac
    obtain ⟨u, hu, -⟩ := lifts_union a b ha hb hab
    obtain ⟨v, hv, -⟩ := lifts_intersection a b ha hb hab
    exact ⟨union_laws ha hb hc hab hac, intersection_laws ha hb hc hab hac, u, v, hu, hv,
      height_union ha hb hu, height_intersection_le ha hb hv⟩

def cold : FuzzySet := ⟨"cold", [⟨0, 1⟩, ⟨1, 0.25⟩]⟩

/-- A set whose grid begins at the other zero. -/
def cool : FuzzySet := ⟨"cool", [⟨-0.0, 0.5⟩, ⟨1, 0.75⟩]⟩

def warm : FuzzySet := ⟨"warm", [⟨0, 0⟩, ⟨1, 1⟩]⟩

/-- Three sets on a grid whose first value is a zero of either sign. -/
theorem distributive_lattice_cold : cold.Valid ∧ cool.Valid ∧ warm.Valid ∧
    cold.SharesGrid cool ∧ cold.SharesGrid warm ∧ LatticeLaws union intersection cold cool warm ∧
    ∃ u, cold.union cool = .ok u ∧ (u.height == greatest 1 0.75) = true := by
  have hcold : cold.Valid := by decide
  have hcool : cool.Valid := by decide
  have hwarm : warm.Valid := by decide
  have hgrid : cold.SharesGrid cool := sameGrid_eq_true_iff.1 (by decide)
  have hgrid' : cold.SharesGrid warm := sameGrid_eq_true_iff.1 (by decide)
  obtain ⟨hlaws, -, u, -, hu, -, hheight, -⟩ :=
    (distributive_lattice cold cool warm hcold hcool hwarm).2.2.2 hgrid hgrid'
  exact ⟨hcold, hcool, hwarm, hgrid, hgrid', hlaws, u, hu, hheight⟩

/-! ## 4. The complement -/

/-- What is left to one decreases. -/
theorem antitone_round_one_sub : Antitone fun q : ℚ => Double.round (1 - q) :=
  fun _ _ h => round_mono (sub_le_sub_left h 1)

theorem sharesGrid_complement : a.complement.SharesGrid b.complement ↔ a.SharesGrid b := by
  rw [SharesGrid, complement, complement, grid_mapMembership, grid_mapMembership, SharesGrid]

/-- The complement of a set agrees with a set of its name, on its grid and with the levels that it
leaves to one. -/
theorem complement_agrees (hu : u.Valid) (hv : v.Valid) (hname : v.name = u.name)
    (hgrid : v.grid = u.grid)
    (hlevel : ∀ i < u.samples.length, Double.round (1 - u.level i) = v.level i) :
    u.complement.agrees v = true := by
  have hug : u.complement.grid = u.grid := grid_mapMembership _ u
  have hlen : u.complement.samples.length = u.samples.length := by
    simpa using congrArg List.length hug
  refine agrees_iff_sameSamples.2 ⟨hname.symm, sameSamples_of_level hu.complement hv
    (hu.complement.sharesGrid_of_grid (hgrid.trans hug.symm)) fun i hi => ?_⟩
  rw [hlen] at hi
  rw [level_complement hu hi, hlevel i hi]

/-- The complement turns the operation `f` into the operation `g`: the complement of the one is the
other on the complements, and both fail on different grids. -/
structure Turns (f g : FuzzySet → FuzzySet → Except Fault FuzzySet) (a b : FuzzySet) : Prop where
  together : (∃ u, f a b = .ok u) ↔ ∃ v, g a.complement b.complement = .ok v
  agree : a.SharesGrid b → ∃ u v, f a b = .ok u ∧ g a.complement b.complement = .ok v ∧
    v.grid = u.complement.grid ∧ u.complement.agrees v = true
  fail : ¬ a.SharesGrid b → f a b = .error (.domainMismatch a.name b.name) ∧
    g a.complement b.complement = .error (.domainMismatch a.name b.name)

/-- **An operation is turned into its dual**, if the dual makes of what is left to one what the
operation leaves to one. -/
theorem turns_of_lifts {f g : Float → Float → Float} (op op' : ℚ → ℚ → ℚ)
    (hf : Lifts level (zipMembership f) fun h k i => op (h i) (k i))
    (hg : Lifts level (zipMembership g) fun h k i => op' (h i) (k i))
    (hop : ∀ p q, Double.round (1 - op p q) = op' (Double.round (1 - p)) (Double.round (1 - q)))
    (ha : a.Valid) (hb : b.Valid) : Turns (zipMembership f) (zipMembership g) a b where
  together := by
    rw [zipMembership_isOk_iff, zipMembership_isOk_iff, sameGrid_eq_true_iff, sameGrid_eq_true_iff,
      sharesGrid_complement]
  agree hgrid := by
    obtain ⟨u, hu, huvalid, -, hulevel⟩ := hf a b ha hb hgrid
    obtain ⟨v, hv, hvvalid, -, hvlevel⟩ :=
      hg a.complement b.complement ha.complement hb.complement (sharesGrid_complement.2 hgrid)
    obtain ⟨huname, hugrid, -⟩ := zipMembership_eq_ok hu
    obtain ⟨hvname, hvgrid, -⟩ := zipMembership_eq_ok hv
    have hsame : v.grid = u.grid := hvgrid.trans ((grid_mapMembership _ a).trans hugrid.symm)
    refine ⟨u, v, hu, hv, hsame.trans (grid_mapMembership _ u).symm, ?_⟩
    refine complement_agrees huvalid hvvalid (hvname.trans huname.symm) hsame fun i hi => ?_
    have hia : i < a.samples.length := by simpa [← length_grid, hugrid] using hi
    have hib : i < b.samples.length := hgrid.length_eq ▸ hia
    calc Double.round (1 - u.level i) = Double.round (1 - op (a.level i) (b.level i)) := by
          rw [hulevel]
      _ = op' (Double.round (1 - a.level i)) (Double.round (1 - b.level i)) := hop _ _
      _ = op' (a.complement.level i) (b.complement.level i) := by
          rw [level_complement ha hia, level_complement hb hib]
      _ = v.level i := by rw [hvlevel]
  fail hgrid := by
    have hcomplement : ¬ a.complement.SharesGrid b.complement :=
      fun h => hgrid (sharesGrid_complement.1 h)
    exact ⟨zipMembership_eq_error_iff.2 (differs_iff.2 ⟨hgrid, rfl⟩),
      zipMembership_eq_error_iff.2 (differs_iff.2 ⟨hcomplement, rfl⟩)⟩

/-- **The laws of De Morgan.** The complement of a union is the intersection of the complements, and
the complement of an intersection is the union of the complements, with the same name, grid and
memberships, although what is left to one is rounded. On different grids both fail. -/
theorem deMorgan (a b : FuzzySet) (ha : a.Valid) (hb : b.Valid) :
    Turns union intersection a b ∧ Turns intersection union a b :=
  ⟨turns_of_lifts max min lifts_union lifts_intersection
      (fun _ _ => antitone_round_one_sub.map_max) ha hb,
    turns_of_lifts min max lifts_intersection lifts_union
      (fun _ _ => antitone_round_one_sub.map_min) ha hb⟩

/-- What a tenth leaves to one is no double, and is rounded. -/
theorem deMorgan_faint : Valid ⟨"faint", [⟨0, 0.1⟩]⟩ ∧ Valid ⟨"weak", [⟨-0.0, 0.3⟩]⟩ ∧
    Turns union intersection ⟨"faint", [⟨0, 0.1⟩]⟩ ⟨"weak", [⟨-0.0, 0.3⟩]⟩ := by
  have hfaint : Valid ⟨"faint", [⟨0, 0.1⟩]⟩ := by decide
  have hweak : Valid ⟨"weak", [⟨-0.0, 0.3⟩]⟩ := by decide
  exact ⟨hfaint, hweak, (deMorgan _ _ hfaint hweak).1⟩

end FuzzyControl.FuzzySet
