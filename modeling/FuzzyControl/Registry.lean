/-!
# Registries: values filed under distinct names, in the order of filing

The sets of a variable, the variables of a controller, the arguments of an evaluation and its
results are all looked up by name and listed in the order in which their names first came. A
`Registry` is that: entries with distinct names.

* `insert` files a value; a name already filed keeps its place and takes the new value;
* `push` files a value under a new name, last in order;
* `collect` adds a value to the list that is filed under a name;
* `erase` takes an entry out, the others keep their order;
* the lemmas say what each does to `find?` and to `names`.
-/

namespace FuzzyControl

universe u

/-- Values filed under distinct names, in the order in which the names were first filed. -/
structure Registry (α : Type u) where
  /-- The names and their values, in order. -/
  entries : List (String × α)
  /-- No name is filed twice. -/
  nodup : (entries.map Prod.fst).Nodup

namespace Registry

variable {α : Type u}

/-! ## 1. Looking up -/

/-- The registry without entries. -/
def empty : Registry α := ⟨[], List.nodup_nil⟩

/-- The names, in order. -/
def names (r : Registry α) : List String := r.entries.map Prod.fst

/-- The values, in order. -/
def values (r : Registry α) : List α := r.entries.map Prod.snd

/-- The number of entries. -/
def size (r : Registry α) : Nat := r.entries.length

/-- Whether there is no entry. -/
def isEmpty (r : Registry α) : Bool := r.entries.isEmpty

theorem isEmpty_iff (r : Registry α) : r.isEmpty = true ↔ r.names = [] := by
  simp [isEmpty, names]

/-- The value that a list of entries files under `name`. -/
def findIn (name : String) : List (String × α) → Option α
  | [] => none
  | (n, v) :: rest => if n = name then some v else findIn name rest

/-- The value filed under `name`. -/
def find? (r : Registry α) (name : String) : Option α := findIn name r.entries

/-- Whether something is filed under `name`. -/
def contains (r : Registry α) (name : String) : Bool := (r.find? name).isSome

@[ext] theorem ext {r s : Registry α} (h : r.entries = s.entries) : r = s := by
  cases r; cases s; cases h; rfl

instance [DecidableEq α] : DecidableEq (Registry α) := fun r s =>
  decidable_of_iff (r.entries = s.entries) ⟨Registry.ext, fun h => h ▸ rfl⟩

theorem findIn_eq_none_iff (name : String) (es : List (String × α)) :
    findIn name es = none ↔ name ∉ es.map Prod.fst := by
  induction es with
  | nil => simp [findIn]
  | cons e es ih =>
    by_cases h : e.1 = name
    · simp [findIn, h]
    · simp [findIn, h, ih, Ne.symm h]

theorem find?_eq_none_iff (r : Registry α) (name : String) :
    r.find? name = none ↔ name ∉ r.names :=
  findIn_eq_none_iff name r.entries

theorem contains_iff (r : Registry α) (name : String) :
    r.contains name = true ↔ name ∈ r.names := by
  have h := r.find?_eq_none_iff name
  unfold contains
  cases hf : r.find? name with
  | none => simpa using h.1 hf
  | some v => simpa [hf] using h

/-- Where the names are distinct, a listed entry is the one its name finds. -/
theorem findIn_of_mem {name : String} {v : α} : ∀ {es : List (String × α)},
    (es.map Prod.fst).Nodup → (name, v) ∈ es → findIn name es = some v
  | [], _, h => by simp at h
  | (n, w) :: es, hn, h => by
      simp only [List.map_cons, List.nodup_cons] at hn
      rcases List.mem_cons.1 h with he | hm
      · cases he; simp [findIn]
      · have : n ≠ name := fun e => hn.1 (e ▸ List.mem_map.2 ⟨(name, v), hm, rfl⟩)
        simpa [findIn, this] using findIn_of_mem hn.2 hm

theorem mem_of_findIn {name : String} {v : α} : ∀ {es : List (String × α)},
    findIn name es = some v → (name, v) ∈ es
  | [], h => by simp [findIn] at h
  | (n, w) :: es, h => by
      by_cases hn : n = name
      · simp [findIn, hn] at h; simp [hn, h]
      · simp only [findIn, hn, if_false] at h
        exact List.mem_cons_of_mem _ (mem_of_findIn h)

/-- A name finds exactly the value that is listed with it. -/
theorem find?_eq_some_iff (r : Registry α) (name : String) (v : α) :
    r.find? name = some v ↔ (name, v) ∈ r.entries :=
  ⟨mem_of_findIn, findIn_of_mem r.nodup⟩

/-! ## 2. Filing -/

/-- The entries with `value` filed under `name`: in the old place if there is one, else last. -/
def putIn (name : String) (value : α) : List (String × α) → List (String × α)
  | [] => [(name, value)]
  | (n, v) :: rest => if n = name then (n, value) :: rest else (n, v) :: putIn name value rest

theorem map_fst_putIn (name : String) (value : α) (es : List (String × α)) :
    (putIn name value es).map Prod.fst =
      if name ∈ es.map Prod.fst then es.map Prod.fst else es.map Prod.fst ++ [name] := by
  induction es with
  | nil => simp [putIn]
  | cons e es ih =>
    by_cases h : e.1 = name
    · simp [putIn, h]
    · by_cases hm : name ∈ es.map Prod.fst
      · simp only [putIn, h, if_false, List.map_cons, ih, hm, if_true, List.mem_cons, or_true]
      · simp only [putIn, h, if_false, List.map_cons, ih, hm, List.mem_cons, Ne.symm h, or_self,
          List.cons_append]

theorem nodup_append_singleton {names : List String} {name : String} (hn : names.Nodup)
    (h : name ∉ names) : (names ++ [name]).Nodup := by
  refine List.nodup_append.2 ⟨hn, by simp, fun a ha b hb => ?_⟩
  rw [List.mem_singleton.1 hb]
  exact fun e => h (e ▸ ha)

/-- Files `value` under `name`; a name already filed keeps its place and takes the new value. -/
def insert (r : Registry α) (name : String) (value : α) : Registry α where
  entries := putIn name value r.entries
  nodup := by
    rw [map_fst_putIn]
    split
    · exact r.nodup
    · exact nodup_append_singleton r.nodup ‹_›

/-- Files `value` last, under a name that is new. -/
def push (r : Registry α) (name : String) (value : α) (new : name ∉ r.names) : Registry α where
  entries := r.entries ++ [(name, value)]
  nodup := by
    simpa using nodup_append_singleton r.nodup new

/-- The entries filed one after the other: a repeated name keeps its first place and its last
value. -/
def ofList (es : List (String × α)) : Registry α :=
  es.foldl (fun r e => r.insert e.1 e.2) empty

@[simp] theorem entries_push (r : Registry α) (name : String) (value : α) (h : name ∉ r.names) :
    (r.push name value h).entries = r.entries ++ [(name, value)] := rfl

@[simp] theorem names_push (r : Registry α) (name : String) (value : α) (h : name ∉ r.names) :
    (r.push name value h).names = r.names ++ [name] := by
  simp [names, push]

@[simp] theorem values_push (r : Registry α) (name : String) (value : α) (h : name ∉ r.names) :
    (r.push name value h).values = r.values ++ [value] := by
  simp [values, push]

theorem names_insert (r : Registry α) (name : String) (value : α) :
    (r.insert name value).names = if name ∈ r.names then r.names else r.names ++ [name] :=
  map_fst_putIn name value r.entries

theorem findIn_putIn (name other : String) (value : α) : ∀ es : List (String × α),
    findIn other (putIn name value es) = if name = other then some value else findIn other es
  | [] => by simp [putIn, findIn]
  | (n, v) :: es => by
      have ih := findIn_putIn name other value es
      by_cases h : n = name
      · by_cases ho : name = other <;> simp [putIn, findIn, h, ho]
      · by_cases ho : n = other
        · have hne : name ≠ other := fun e => h (ho.trans e.symm)
          rw [putIn, if_neg h, findIn, if_pos ho, if_neg hne, findIn, if_pos ho]
        · rw [putIn, if_neg h, findIn, if_neg ho, ih, findIn, if_neg ho]

/-- After filing, the name finds the new value, and every other name what it found before. -/
theorem find?_insert (r : Registry α) (name other : String) (value : α) :
    (r.insert name value).find? other = if name = other then some value else r.find? other :=
  findIn_putIn name other value r.entries

/-- Nothing is filed but the new value. -/
theorem mem_putIn {name : String} {value : α} {es : List (String × α)} {e : String × α}
    (h : e ∈ putIn name value es) : e = (name, value) ∨ e ∈ es := by
  induction es with
  | nil => exact Or.inl (List.mem_singleton.1 h)
  | cons f es ih =>
    obtain ⟨n, v⟩ := f
    rw [putIn] at h
    split at h
    · rename_i hn
      rcases List.mem_cons.1 h with h | h
      · exact Or.inl (hn ▸ h)
      · exact Or.inr (List.mem_cons_of_mem _ h)
    · rcases List.mem_cons.1 h with h | h
      · exact Or.inr (h ▸ List.mem_cons_self)
      · exact (ih h).imp id (List.mem_cons_of_mem _)

theorem mem_values_insert {r : Registry α} {name : String} {value v : α}
    (h : v ∈ (r.insert name value).values) : v = value ∨ v ∈ r.values := by
  obtain ⟨e, he, rfl⟩ := List.mem_map.1 h
  rcases mem_putIn he with rfl | he
  · exact Or.inl rfl
  · exact Or.inr (List.mem_map_of_mem he)

/-- A new name is filed last. -/
theorem putIn_of_not_mem {name : String} {es : List (String × α)} (value : α)
    (h : name ∉ es.map Prod.fst) : putIn name value es = es ++ [(name, value)] := by
  induction es with
  | nil => rfl
  | cons e es ih =>
    rw [List.map_cons, List.mem_cons, not_or] at h
    rw [putIn, if_neg (Ne.symm h.1), ih h.2, List.cons_append]

/-- A value whose name is new is filed last. -/
theorem insert_of_not_mem {r : Registry α} {name : String} (value : α) (h : name ∉ r.names) :
    r.insert name value = r.push name value h :=
  Registry.ext (putIn_of_not_mem value h)

/-- Entries with distinct names are filed as they are. -/
theorem entries_ofList {es : List (String × α)} (h : (es.map Prod.fst).Nodup) :
    (ofList es).entries = es := by
  have hfold : ∀ (es : List (String × α)) (r : Registry α),
      ((r.entries ++ es).map Prod.fst).Nodup →
        (es.foldl (fun r e => r.insert e.1 e.2) r).entries = r.entries ++ es := by
    intro es
    induction es with
    | nil => intro r _; exact (List.append_nil _).symm
    | cons e es ih =>
      intro r hr
      have hnew : e.1 ∉ r.entries.map Prod.fst := by
        rw [List.map_append, List.nodup_append] at hr
        intro hmem
        exact hr.2.2 e.1 hmem e.1 (by simp) rfl
      have hentries : (r.insert e.1 e.2).entries = r.entries ++ [e] := putIn_of_not_mem e.2 hnew
      have ih' := ih (r.insert e.1 e.2)
      rw [hentries, List.append_assoc] at ih'
      exact ih' hr
  exact hfold es empty h

theorem findIn_append (name : String) (es fs : List (String × α)) :
    findIn name (es ++ fs) = (findIn name es).or (findIn name fs) := by
  induction es with
  | nil => rfl
  | cons e es ih =>
    rw [List.cons_append, findIn, findIn]
    split
    · rfl
    · exact ih

/-- A new name finds what was filed under it, and every other name what it found before. -/
theorem find?_push (r : Registry α) (name other : String) (value : α) (h : name ∉ r.names) :
    (r.push name value h).find? other = if name = other then some value else r.find? other := by
  show findIn other (r.entries ++ [(name, value)]) = _
  rw [findIn_append]
  by_cases ho : name = other
  · subst ho
    rw [(findIn_eq_none_iff name r.entries).2 h, if_pos rfl, findIn, if_pos rfl]
    rfl
  · rw [if_neg ho, findIn, if_neg ho]
    exact Option.or_none

/-- Adds `x` at the end of the list filed under `name`; the first one opens it. -/
def collect (r : Registry (List α)) (name : String) (x : α) : Registry (List α) :=
  r.insert name ((r.find? name).getD [] ++ [x])

/-- The name finds its list with the new value, and every other name what it found before. -/
theorem find?_collect (r : Registry (List α)) (name other : String) (x : α) :
    (r.collect name x).find? other =
      if name = other then some ((r.find? other).getD [] ++ [x]) else r.find? other := by
  unfold collect
  rw [find?_insert]
  by_cases h : name = other
  · rw [if_pos h, if_pos h, h]
  · rw [if_neg h, if_neg h]

/-! ## 3. Taking out -/

/-- Takes the entry under `name` out; the others keep their order. -/
def erase (r : Registry α) (name : String) : Registry α where
  entries := r.entries.filter fun e => e.1 != name
  nodup := by
    have h := r.nodup
    rw [show (r.entries.filter fun e => e.1 != name).map Prod.fst
        = (r.entries.map Prod.fst).filter (· != name) by rw [List.filter_map]; rfl]
    exact h.sublist List.filter_sublist

theorem names_erase (r : Registry α) (name : String) :
    (r.erase name).names = r.names.filter (· != name) := by
  simp only [names, erase, List.filter_map]
  rfl

/-- Nothing is taken out under a name that is not there. -/
theorem erase_of_not_mem {r : Registry α} {name : String} (h : name ∉ r.names) :
    r.erase name = r := by
  refine Registry.ext (List.filter_eq_self.2 fun e he => ?_)
  have hne : e.1 ≠ name := fun heq => h (heq ▸ List.mem_map_of_mem he)
  simpa using hne

/-- The name that is taken out finds nothing, and every other name what it found before. -/
theorem find?_erase (r : Registry α) (name other : String) :
    (r.erase name).find? other = if name = other then none else r.find? other := by
  have h : ∀ es : List (String × α), findIn other (es.filter fun e => e.1 != name) =
      if name = other then none else findIn other es := by
    intro es
    induction es with
    | nil => simp [findIn]
    | cons e es ih =>
      obtain ⟨n, v⟩ := e
      by_cases hn : n = name
      · subst hn
        rw [List.filter_cons_of_neg (by simp), ih]
        by_cases ho : n = other
        · rw [if_pos ho, if_pos ho]
        · rw [if_neg ho, if_neg ho, findIn, if_neg ho]
      · rw [List.filter_cons_of_pos (by simpa using hn), findIn, ih]
        by_cases ho : n = other
        · have hne : name ≠ other := fun e => hn (ho.trans e.symm)
          rw [if_pos ho, if_neg hne, findIn, if_pos ho]
        · rw [if_neg ho]
          by_cases hno : name = other
          · rw [if_pos hno, if_pos hno]
          · rw [if_neg hno, if_neg hno, findIn, if_neg ho]
  exact h r.entries

/-! ## 4. Values that carry their own name -/

/-- Every value is filed under the name that it carries itself. -/
def FiledBy (key : α → String) (r : Registry α) : Prop := ∀ e ∈ r.entries, e.1 = key e.2

theorem filedBy_empty (key : α → String) : (empty : Registry α).FiledBy key := by
  intro e he; simp [empty] at he

theorem FiledBy.push {key : α → String} {r : Registry α} (h : r.FiledBy key) (v : α)
    (new : key v ∉ r.names) : (r.push (key v) v new).FiledBy key := by
  intro e he
  rcases List.mem_append.1 he with he | he
  · exact h e he
  · rw [List.mem_singleton.1 he]

theorem FiledBy.erase {key : α → String} {r : Registry α} (h : r.FiledBy key) (name : String) :
    (r.erase name).FiledBy key :=
  fun e he => h e (List.mem_filter.1 he).1

/-- The names are those that the values carry, in order. -/
theorem FiledBy.names_eq {key : α → String} {r : Registry α} (h : r.FiledBy key) :
    r.names = r.values.map key := by
  rw [names, values, List.map_map]
  exact List.map_congr_left h

/-- Registries of the same values in the same order are the same. -/
theorem FiledBy.eq_of_values {key : α → String} {r s : Registry α} (hr : r.FiledBy key)
    (hs : s.FiledBy key) (h : r.values = s.values) : r = s := by
  have hentries : ∀ {t : Registry α}, t.FiledBy key →
      t.entries = t.values.map fun v => (key v, v) := by
    intro t ht
    rw [values, List.map_map]
    refine (List.map_id _).symm.trans (List.map_congr_left fun e he => ?_)
    exact Prod.ext (ht e he) rfl
  exact Registry.ext (by rw [hentries hr, hentries hs, h])

/-- A value is found under the name that it carries. -/
theorem FiledBy.find?_eq_some_iff {key : α → String} {r : Registry α} (h : r.FiledBy key)
    {name : String} {v : α} : r.find? name = some v ↔ v ∈ r.values ∧ key v = name := by
  rw [Registry.find?_eq_some_iff]
  constructor
  · intro hmem
    exact ⟨List.mem_map_of_mem hmem, (h _ hmem).symm⟩
  · rintro ⟨hmem, rfl⟩
    obtain ⟨e, he, rfl⟩ := List.mem_map.1 hmem
    rwa [← h e he]

/-- The values that stay are those that carry another name. -/
theorem FiledBy.values_erase {key : α → String} {r : Registry α} (h : r.FiledBy key)
    (name : String) : (r.erase name).values = r.values.filter fun v => key v != name := by
  show (r.entries.filter fun e => e.1 != name).map Prod.snd = _
  rw [values, List.filter_map]
  congr 1
  refine List.filter_congr fun e he => ?_
  rw [h e he]
  rfl

/-- The first entry that is not filed under the name it carries. -/
def misfiled? (key : α → String) (r : Registry α) : Option (String × α) :=
  r.entries.find? fun e => e.1 != key e.2

theorem misfiled?_eq_none_iff (key : α → String) (r : Registry α) :
    r.misfiled? key = none ↔ r.FiledBy key := by
  simp [misfiled?, FiledBy, List.find?_eq_none]

end Registry

end FuzzyControl
