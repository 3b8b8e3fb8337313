import Mathlib.Data.Multiset.Bind
import Mathlib.Order.Defs.LinearOrder

/-!
# Finite maps in key order

An `OrdMap` is a finite map stored as its entries in strictly ascending key
order, the order in which an ordered map iterates. The order is a field, so a
map with a repeated or misplaced key cannot be built.

Results:
1. `get?_eq_some_iff`: lookup is membership of the entry.
2. `modify_entries`, `erase_entries`, `insert_entries`: what the three updates
   do to the entries as a multiset, for a key that is present (absent, for
   `insert`).
3. `collect_modify`, `collect_erase`, `collect_insert`: what the updates do to
   what is collected from all entries.
4. `get?_upsert_self`, `get?_upsert_ne`: reading back an updated slot.
5. `ofList_of_perm`: a map is collected from its entries in any order.
-/

universe u v w

/-- A finite map: its entries, in strictly ascending key order. -/
structure OrdMap (K : Type u) (V : Type v) [LinearOrder K] where
  entries : List (K × V)
  sorted : entries.Pairwise fun a b => a.1 < b.1

namespace OrdMap

variable {K : Type u} {V : Type v} {W : Type w} [LinearOrder K]

/-! ## Definitions -/

instance [DecidableEq V] : DecidableEq (OrdMap K V) := fun a b =>
  decidable_of_iff (a.entries = b.entries) (by cases a; cases b; simp)

/-- The map without entries. -/
def empty : OrdMap K V := ⟨[], List.Pairwise.nil⟩

/-- The map with one entry. -/
def singleton (k : K) (v : V) : OrdMap K V := ⟨[(k, v)], List.pairwise_singleton _ _⟩

/-- The keys, ascending. -/
def keys (m : OrdMap K V) : List K := m.entries.map Prod.fst

/-- The values, in key order. -/
def values (m : OrdMap K V) : List V := m.entries.map Prod.snd

/-- The number of entries. -/
def size (m : OrdMap K V) : Nat := m.entries.length

/-- The value under a key. -/
def get? (m : OrdMap K V) (k : K) : Option V := (m.entries.find? fun e => e.1 = k).map Prod.snd

/-- Whether a key has an entry. -/
def contains (m : OrdMap K V) (k : K) : Bool := (m.get? k).isSome

/-- Change the value under a key, if it has one. -/
def modify (m : OrdMap K V) (k : K) (f : V → V) : OrdMap K V where
  entries := m.entries.map fun e => if e.1 = k then (e.1, f e.2) else e
  sorted := by
    refine List.pairwise_map.mpr (m.sorted.imp fun {a b} hab => ?_)
    split <;> split <;> exact hab

/-- Change every value. -/
def mapValues (m : OrdMap K V) (f : V → W) : OrdMap K W where
  entries := m.entries.map fun e => (e.1, f e.2)
  sorted := List.pairwise_map.mpr (m.sorted.imp fun {_ _} hab => hab)

/-- Remove a key. -/
def erase (m : OrdMap K V) (k : K) : OrdMap K V where
  entries := m.entries.filter fun e => e.1 ≠ k
  sorted := m.sorted.filter _

/-- Keep the entries whose key passes a test. -/
def retain (m : OrdMap K V) (p : K → Bool) : OrdMap K V where
  entries := m.entries.filter fun e => p e.1
  sorted := m.sorted.filter _

/-- Set the value under a key, replacing an old one. -/
def insert (m : OrdMap K V) (k : K) (v : V) : OrdMap K V where
  entries := m.entries.filter (fun e => e.1 < k) ++ (k, v) :: m.entries.filter fun e => k < e.1
  sorted := by
    refine List.pairwise_append.mpr ⟨m.sorted.filter _, ?_, ?_⟩
    · refine List.pairwise_cons.mpr ⟨fun e he => ?_, m.sorted.filter _⟩
      simpa using (List.mem_filter.mp he).2
    · intro a ha b hb
      have hak : a.1 < k := by simpa using (List.mem_filter.mp ha).2
      rcases List.mem_cons.mp hb with rfl | hb
      · exact hak
      · exact lt_trans hak (by simpa using (List.mem_filter.mp hb).2)

/-- Change the value under a key, starting from `z` when it has none. -/
def upsert (m : OrdMap K V) (k : K) (z : V) (f : V → V) : OrdMap K V :=
  m.insert k (f ((m.get? k).getD z))

/-- What all entries hold, as one multiset. -/
def collect (m : OrdMap K V) (g : K → V → Multiset W) : Multiset W :=
  (m.entries : Multiset (K × V)).bind fun e => g e.1 e.2

/-! ## Lookup -/

theorem ext {m n : OrdMap K V} (h : m.entries = n.entries) : m = n := by
  cases m; cases n; simpa using h

/-- Two entries under one key are the same entry. -/
theorem entry_unique (m : OrdMap K V) {k : K} {v v' : V} (h : (k, v) ∈ m.entries)
    (h' : (k, v') ∈ m.entries) : v = v' := by
  by_contra hne
  have hirr : ∀ e ∈ m.entries, ¬ e.1 < e.1 := fun e _ => lt_irrefl _
  rcases List.pairwise_iff_getElem.mp m.sorted with hs
  obtain ⟨i, hi, hiv⟩ := List.getElem_of_mem h
  obtain ⟨j, hj, hjv⟩ := List.getElem_of_mem h'
  rcases Nat.lt_trichotomy i j with hij | hij | hij
  · have hlt := hs i j hi hj hij
    rw [hiv, hjv] at hlt
    exact lt_irrefl _ hlt
  · subst hij
    exact hne (congrArg Prod.snd (hiv.symm.trans hjv))
  · have hlt := hs j i hj hi hij
    rw [hiv, hjv] at hlt
    exact lt_irrefl _ hlt

/-- Lookup is membership of the entry. -/
theorem get?_eq_some_iff {m : OrdMap K V} {k : K} {v : V} :
    m.get? k = some v ↔ (k, v) ∈ m.entries := by
  constructor
  · intro h
    obtain ⟨e, he, rfl⟩ := Option.map_eq_some_iff.mp h
    have hk : e.1 = k := by simpa using List.find?_some he
    exact hk ▸ List.mem_of_find?_eq_some he
  · intro h
    have hsome : (m.entries.find? fun e => e.1 = k).isSome := by
      rw [List.find?_isSome]
      exact ⟨(k, v), h, by simp⟩
    obtain ⟨e, he⟩ := Option.isSome_iff_exists.mp hsome
    have hk : e.1 = k := by simpa using List.find?_some he
    have hv : e.2 = v := m.entry_unique (k := k) (hk ▸ List.mem_of_find?_eq_some he) h
    rw [get?, he, Option.map_some, hv]

theorem mem_keys {m : OrdMap K V} {k : K} : k ∈ m.keys ↔ ∃ v, (k, v) ∈ m.entries := by
  simp [keys]

theorem mem_values {m : OrdMap K V} {v : V} : v ∈ m.values ↔ ∃ k, (k, v) ∈ m.entries := by
  simp [values]

theorem contains_iff {m : OrdMap K V} {k : K} : m.contains k = true ↔ k ∈ m.keys := by
  rw [contains, Option.isSome_iff_exists, mem_keys]
  exact exists_congr fun v => get?_eq_some_iff

theorem get?_eq_none_iff {m : OrdMap K V} {k : K} : m.get? k = none ↔ k ∉ m.keys := by
  rw [← contains_iff, contains]
  cases m.get? k <;> simp

theorem keys_nodup (m : OrdMap K V) : m.keys.Nodup :=
  List.pairwise_map.mpr (m.sorted.imp fun {_ _} h => ne_of_lt h)

/-! ## Updates, as multisets of entries -/

/-- An entry can be taken out of the map; no other entry has its key. -/
theorem exists_rest {m : OrdMap K V} {k : K} {v : V} (h : m.get? k = some v) :
    ∃ rest : Multiset (K × V), (m.entries : Multiset (K × V)) = (k, v) ::ₘ rest ∧
      ∀ e ∈ rest, e.1 ≠ k := by
  obtain ⟨pre, post, hsplit⟩ := List.append_of_mem (get?_eq_some_iff.mp h)
  refine ⟨((pre ++ post : List (K × V)) : Multiset (K × V)), ?_, ?_⟩
  · rw [hsplit, Multiset.cons_coe, Multiset.coe_eq_coe]
    exact List.perm_middle
  · intro e he hk
    have hnodup := m.keys_nodup
    rw [keys, hsplit, List.map_append, List.map_cons, List.nodup_middle, List.nodup_cons] at hnodup
    refine hnodup.1 ?_
    rw [← List.map_append, List.mem_map]
    exact ⟨e, Multiset.mem_coe.mp he, hk⟩

/-- `modify` changes the value of its entry and keeps the others. -/
theorem modify_entries {m : OrdMap K V} {k : K} {v : V} {rest : Multiset (K × V)} (f : V → V)
    (h : (m.entries : Multiset (K × V)) = (k, v) ::ₘ rest) (hrest : ∀ e ∈ rest, e.1 ≠ k) :
    ((m.modify k f).entries : Multiset (K × V)) = (k, f v) ::ₘ rest := by
  rw [modify, ← Multiset.map_coe, h, Multiset.map_cons, if_pos rfl]
  congr 1
  rw [Multiset.map_congr rfl fun e he => if_neg (hrest e he), Multiset.map_id']

/-- `erase` takes its entry out and keeps the others. -/
theorem erase_entries {m : OrdMap K V} {k : K} {v : V} {rest : Multiset (K × V)}
    (h : (m.entries : Multiset (K × V)) = (k, v) ::ₘ rest) (hrest : ∀ e ∈ rest, e.1 ≠ k) :
    ((m.erase k).entries : Multiset (K × V)) = rest := by
  have hcoe : ((m.erase k).entries : Multiset (K × V)) =
      (m.entries : Multiset (K × V)).filter fun e => e.1 ≠ k := by
    simp [erase, Multiset.filter_coe]
  rw [hcoe, h, Multiset.filter_cons_of_neg _ (by simp), Multiset.filter_eq_self]
  exact hrest

/-- `insert` under a new key adds the entry and keeps the others. -/
theorem insert_entries {m : OrdMap K V} {k : K} (v : V) (h : k ∉ m.keys) :
    ((m.insert k v).entries : Multiset (K × V)) = (k, v) ::ₘ (m.entries : Multiset (K × V)) := by
  have hne : ∀ e ∈ m.entries, e.1 ≠ k := fun e he hk => h (mem_keys.mpr ⟨e.2, hk ▸ he⟩)
  rw [insert, Multiset.cons_coe, Multiset.coe_eq_coe]
  refine List.perm_middle.trans (List.Perm.cons _ ?_)
  have hpart := List.filter_append_perm (fun e : K × V => decide (e.1 < k)) m.entries
  refine List.Perm.trans (List.Perm.of_eq ?_) hpart
  congr 1
  refine List.filter_congr fun e he => ?_
  rcases lt_trichotomy e.1 k with hlt | heq | hlt
  · simp [hlt, not_lt_of_gt hlt]
  · exact absurd heq (hne e he)
  · simp [hlt, not_lt_of_gt hlt]

@[simp] theorem modify_keys (m : OrdMap K V) (k : K) (f : V → V) :
    (m.modify k f).keys = m.keys := by
  rw [keys, keys, modify, List.map_map]
  refine List.map_congr_left fun e _ => ?_
  simp only [Function.comp_apply]
  split <;> rfl

@[simp] theorem modify_size (m : OrdMap K V) (k : K) (f : V → V) :
    (m.modify k f).size = m.size := by
  simp [size, modify]

@[simp] theorem mapValues_keys (m : OrdMap K V) (f : V → W) : (m.mapValues f).keys = m.keys := by
  simp [keys, mapValues]

theorem get?_mapValues (m : OrdMap K V) (f : V → W) (k : K) :
    (m.mapValues f).get? k = (m.get? k).map f := by
  simp only [get?, mapValues, List.find?_map, Option.map_map]
  rfl

theorem mem_insert_entries {m : OrdMap K V} {k : K} {v : V} {e : K × V} :
    e ∈ (m.insert k v).entries ↔ e = (k, v) ∨ (e ∈ m.entries ∧ e.1 ≠ k) := by
  simp only [insert, List.mem_append, List.mem_cons, List.mem_filter, decide_eq_true_eq]
  constructor
  · rintro (⟨he, hlt⟩ | rfl | ⟨he, hlt⟩)
    · exact .inr ⟨he, ne_of_lt hlt⟩
    · exact .inl rfl
    · exact .inr ⟨he, ne_of_gt hlt⟩
  · rintro (rfl | ⟨he, hne⟩)
    · exact .inr (.inl rfl)
    · rcases lt_or_gt_of_ne hne with hlt | hlt
      · exact .inl ⟨he, hlt⟩
      · exact .inr (.inr ⟨he, hlt⟩)

theorem mem_modify_entries {m : OrdMap K V} {k : K} {f : V → V} {e : K × V} :
    e ∈ (m.modify k f).entries ↔
      (e ∈ m.entries ∧ e.1 ≠ k) ∨ ∃ v, (k, v) ∈ m.entries ∧ e = (k, f v) := by
  simp only [modify, List.mem_map]
  constructor
  · rintro ⟨⟨k', v⟩, he, rfl⟩
    by_cases hk : k' = k
    · exact .inr ⟨v, hk ▸ he, by simp [hk]⟩
    · exact .inl (by simpa [hk] using he)
  · rintro (⟨he, hk⟩ | ⟨v, he, rfl⟩)
    · exact ⟨e, he, by simp [hk]⟩
    · exact ⟨(k, v), he, by simp⟩

theorem mem_erase_entries {m : OrdMap K V} {k : K} {e : K × V} :
    e ∈ (m.erase k).entries ↔ e ∈ m.entries ∧ e.1 ≠ k := by
  simp [erase]

theorem mem_insert_keys {m : OrdMap K V} {k k' : K} {v : V} :
    k' ∈ (m.insert k v).keys ↔ k' = k ∨ k' ∈ m.keys := by
  simp only [mem_keys, mem_insert_entries]
  constructor
  · rintro ⟨w, h | h⟩
    · exact .inl (congrArg Prod.fst h)
    · exact .inr ⟨w, h.1⟩
  · rintro (rfl | ⟨w, h⟩)
    · exact ⟨v, .inl rfl⟩
    · by_cases hk : k' = k
      · exact ⟨v, .inl (by rw [hk])⟩
      · exact ⟨w, .inr ⟨h, hk⟩⟩

theorem mem_erase_keys {m : OrdMap K V} {k k' : K} :
    k' ∈ (m.erase k).keys ↔ k' ∈ m.keys ∧ k' ≠ k := by
  simp only [mem_keys, mem_erase_entries, exists_and_right]

theorem get?_modify_self (m : OrdMap K V) (k : K) (f : V → V) :
    (m.modify k f).get? k = (m.get? k).map f := by
  refine Option.ext fun v' => ?_
  simp only [get?_eq_some_iff, mem_modify_entries, Option.map_eq_some_iff, ne_eq, not_true_eq_false,
    and_false, false_or, Prod.mk.injEq, true_and]
  exact exists_congr fun v => and_congr_right fun _ => eq_comm

/-- A map with at least two entries has a key other than a given one. -/
theorem exists_key_ne {m : OrdMap K V} (h : 1 < m.size) (k : K) : ∃ k' ∈ m.keys, k' ≠ k := by
  by_contra hall
  have heq : ∀ k' ∈ m.keys, k' = k := fun k' hk' => by
    by_contra hne
    exact hall ⟨k', hk', hne⟩
  have hlen : m.keys.length ≤ 1 := by
    rw [List.eq_replicate_of_mem heq]
    have hnodup := m.keys_nodup
    rw [List.eq_replicate_of_mem heq, List.nodup_replicate] at hnodup
    simpa using hnodup
  rw [keys, List.length_map] at hlen
  exact absurd h (Nat.not_lt.mpr hlen)

/-! ## Collecting -/

/-- `modify` exchanges what its entry contributes. -/
theorem collect_modify {m : OrdMap K V} {k : K} {v : V} (g : K → V → Multiset W) (f : V → V)
    (h : m.get? k = some v) :
    (m.modify k f).collect g + g k v = m.collect g + g k (f v) := by
  obtain ⟨rest, hm, hrest⟩ := exists_rest h
  rw [collect, collect, modify_entries f hm hrest, hm, Multiset.cons_bind, Multiset.cons_bind,
    add_right_comm, add_right_comm (g k v), add_comm (g k (f v))]

/-- `erase` takes out what its entry contributes. -/
theorem collect_erase {m : OrdMap K V} {k : K} {v : V} (g : K → V → Multiset W)
    (h : m.get? k = some v) : m.collect g = g k v + (m.erase k).collect g := by
  obtain ⟨rest, hm, hrest⟩ := exists_rest h
  rw [collect, collect, erase_entries hm hrest, hm, Multiset.cons_bind]

/-- `insert` under a new key adds what its entry contributes. -/
theorem collect_insert {m : OrdMap K V} {k : K} (g : K → V → Multiset W) (v : V)
    (h : k ∉ m.keys) : (m.insert k v).collect g = g k v + m.collect g := by
  rw [collect, collect, insert_entries v h, Multiset.cons_bind]

theorem collect_mapValues (m : OrdMap K V) (f : V → V) (g : K → V → Multiset W) :
    (m.mapValues f).collect g = m.collect fun k v => g k (f v) := by
  simp only [collect, mapValues, ← Multiset.map_coe, Multiset.bind_map]

theorem modify_of_get?_eq_none {m : OrdMap K V} {k : K} (f : V → V) (h : m.get? k = none) :
    m.modify k f = m := by
  refine OrdMap.ext ?_
  rw [modify]
  refine (List.map_congr_left fun e he => ?_).trans (List.map_id _)
  have hk : e.1 ≠ k := fun hk => get?_eq_none_iff.mp h (mem_keys.mpr ⟨e.2, hk ▸ he⟩)
  simp [hk]

/-- A change that `g` does not see. -/
theorem mapValues_modify {m : OrdMap K V} {k : K} {f : V → V} {g : V → W}
    (h : ∀ v, m.get? k = some v → g (f v) = g v) : (m.modify k f).mapValues g = m.mapValues g := by
  refine OrdMap.ext ?_
  simp only [mapValues, modify, List.map_map]
  refine List.map_congr_left fun e he => ?_
  simp only [Function.comp_apply]
  split
  next hk => rw [h e.2 (get?_eq_some_iff.mpr (hk ▸ he))]
  · rfl

theorem modify_modify_self (m : OrdMap K V) (k : K) (f g : V → V) :
    (m.modify k f).modify k g = m.modify k (g ∘ f) := by
  refine OrdMap.ext ?_
  simp only [modify, List.map_map]
  refine List.map_congr_left fun e _ => ?_
  by_cases hk : e.1 = k <;> simp [hk]

/-- Changes under different keys commute. -/
theorem modify_modify_ne (m : OrdMap K V) {k k' : K} (f g : V → V) (h : k ≠ k') :
    (m.modify k f).modify k' g = (m.modify k' g).modify k f := by
  refine OrdMap.ext ?_
  simp only [modify, List.map_map]
  refine List.map_congr_left fun e _ => ?_
  by_cases hk : e.1 = k <;> by_cases hk' : e.1 = k' <;> simp_all

/-! ## Taking out one key -/

theorem erase_of_get?_eq_none {m : OrdMap K V} {k : K} (h : m.get? k = none) : m.erase k = m := by
  refine OrdMap.ext (List.filter_eq_self.mpr fun e he => ?_)
  have hk : e.1 ≠ k := fun hk => get?_eq_none_iff.mp h (mem_keys.mpr ⟨e.2, hk ▸ he⟩)
  simpa using hk

/-- A map is the entry of a key and the entries of the others. -/
theorem perm_erase {m : OrdMap K V} {k : K} {v : V} (h : m.get? k = some v) :
    m.entries.Perm ((k, v) :: (m.erase k).entries) := by
  obtain ⟨rest, hentries, hrest⟩ := exists_rest h
  rw [← Multiset.coe_eq_coe, ← Multiset.cons_coe, erase_entries hentries hrest, hentries]

/-- `insert` replaces whatever was under the key. -/
theorem insert_perm (m : OrdMap K V) (k : K) (v : V) :
    (m.insert k v).entries.Perm ((k, v) :: (m.erase k).entries) := by
  have hsame : m.insert k v = (m.erase k).insert k v := by
    have hlow : ∀ e ∈ m.entries, decide (e.1 < k) = (decide (e.1 < k) && decide (e.1 ≠ k)) := by
      intro e _
      by_cases hlt : e.1 < k <;> simp [hlt, ne_of_lt]
    have hhigh : ∀ e ∈ m.entries, decide (k < e.1) = (decide (k < e.1) && decide (e.1 ≠ k)) := by
      intro e _
      by_cases hlt : k < e.1 <;> simp [hlt, ne_of_gt]
    refine OrdMap.ext ?_
    simp only [insert, erase, List.filter_filter]
    rw [List.filter_congr hlow, List.filter_congr hhigh]
  have hkey : k ∉ (m.erase k).keys := fun hk => (mem_erase_keys.mp hk).2 rfl
  rw [hsame, ← Multiset.coe_eq_coe, insert_entries v hkey, Multiset.cons_coe]

/-! ## Reading back an update -/

theorem get?_insert_self (m : OrdMap K V) (k : K) (v : V) : (m.insert k v).get? k = some v :=
  get?_eq_some_iff.mpr (mem_insert_entries.mpr (.inl rfl))

theorem get?_insert_ne (m : OrdMap K V) {k k' : K} (v : V) (h : k' ≠ k) :
    (m.insert k v).get? k' = m.get? k' := by
  refine Option.ext fun v' => ?_
  rw [get?_eq_some_iff, get?_eq_some_iff, mem_insert_entries]
  simp [h]

theorem get?_insert (m : OrdMap K V) (k k' : K) (v : V) :
    (m.insert k v).get? k' = if k' = k then some v else m.get? k' := by
  split
  next h => rw [h, get?_insert_self]
  next h => exact get?_insert_ne m v h

/-- A key behind all others goes to the end. -/
theorem insert_last {m : OrdMap K V} {k : K} (v : V) (h : ∀ e ∈ m.entries, e.1 < k) :
    (m.insert k v).entries = m.entries ++ [(k, v)] := by
  have hlow : m.entries.filter (fun e => e.1 < k) = m.entries :=
    List.filter_eq_self.mpr fun e he => decide_eq_true (h e he)
  have hhigh : m.entries.filter (fun e => k < e.1) = [] :=
    List.filter_eq_nil_iff.mpr fun e he => by simpa using (h e he).le
  show m.entries.filter (fun e => e.1 < k) ++ (k, v) :: m.entries.filter (fun e => k < e.1) = _
  rw [hlow, hhigh]

@[simp] theorem get?_empty (k : K) : (empty : OrdMap K V).get? k = none := rfl

theorem get?_retain (m : OrdMap K V) (p : K → Bool) (k : K) :
    (m.retain p).get? k = if p k then m.get? k else none := by
  refine Option.ext fun v => ?_
  rw [get?_eq_some_iff]
  split
  next h => simp [retain, h, get?_eq_some_iff]
  next h => simp [retain, h]

/-- Maps that read the same are the same. -/
theorem ext_get? {m n : OrdMap K V} (h : ∀ k, m.get? k = n.get? k) : m = n := by
  have hnodup (m : OrdMap K V) : m.entries.Nodup :=
    m.sorted.imp fun {_ _} hlt heq => ne_of_lt hlt (congrArg Prod.fst heq)
  have hperm : m.entries.Perm n.entries := by
    refine (List.perm_ext_iff_of_nodup (hnodup m) (hnodup n)).mpr fun e => ?_
    rw [← get?_eq_some_iff, ← get?_eq_some_iff, h]
  refine ext (hperm.eq_of_pairwise (fun a b _ _ hab hba => ?_) m.sorted n.sorted)
  exact absurd (lt_trans hab hba) (lt_irrefl _)

/-! ## Maps from lists -/

/-- The map that a list of entries is collected into, later ones over earlier ones. -/
def ofList (l : List (K × V)) : OrdMap K V := l.foldl (fun m e => m.insert e.1 e.2) empty

@[simp] theorem ofList_nil : (ofList [] : OrdMap K V) = empty := rfl

theorem ofList_append (l : List (K × V)) (k : K) (v : V) :
    ofList (l ++ [(k, v)]) = (ofList l).insert k v := by
  rw [ofList, List.foldl_append, ← ofList]
  rfl

/-- With distinct keys, the map has the entries of the list. -/
theorem get?_ofList {l : List (K × V)} (h : (l.map Prod.fst).Nodup) {k : K} {v : V} :
    (ofList l).get? k = some v ↔ (k, v) ∈ l := by
  induction l using List.reverseRecOn with
  | nil => simp
  | append_singleton l e ih =>
    obtain ⟨k', v'⟩ := e
    rw [List.map_append, List.nodup_append] at h
    obtain ⟨hl, -, hdisjoint⟩ := h
    have hfresh : ∀ w, (k', w) ∉ l := fun w hw =>
      hdisjoint k' (List.mem_map_of_mem hw) k' List.mem_cons_self rfl
    rw [ofList_append, get?_insert, List.mem_append, List.mem_singleton, Prod.mk.injEq]
    split
    next heq =>
      subst heq
      rw [Option.some_inj]
      exact ⟨fun hv => .inr ⟨rfl, hv.symm⟩, fun hv => by
        rcases hv with hmem | ⟨-, rfl⟩
        · exact absurd hmem (hfresh v)
        · rfl⟩
    next hne => rw [ih hl]; simp [hne]

theorem mem_of_mem_ofList {l : List (K × V)} {e : K × V} (h : e ∈ (ofList l).entries) : e ∈ l := by
  induction l using List.reverseRecOn with
  | nil => exact h
  | append_singleton l e' ih =>
    rw [ofList_append, mem_insert_entries] at h
    rcases h with rfl | ⟨hold, -⟩
    · exact List.mem_append_right _ (List.mem_singleton_self _)
    · exact List.mem_append_left _ (ih hold)

/-- A map is collected from its entries, in whatever order they come. -/
theorem ofList_of_perm {m : OrdMap K V} {l : List (K × V)} (h : l.Perm m.entries) :
    ofList l = m := by
  have hnodup : (l.map Prod.fst).Nodup := (h.map Prod.fst).nodup_iff.mpr m.keys_nodup
  refine ext_get? fun k => Option.ext fun v => ?_
  rw [get?_ofList hnodup, get?_eq_some_iff]
  exact h.mem_iff

theorem entries_ofList_perm {l : List (K × V)} (h : (l.map Prod.fst).Nodup) :
    (ofList l).entries.Perm l := by
  have hmap : (ofList l).entries.Nodup := List.Nodup.of_map Prod.fst (keys_nodup _)
  refine (List.perm_ext_iff_of_nodup hmap (List.Nodup.of_map Prod.fst h)).mpr fun e => ?_
  rw [← get?_ofList h, get?_eq_some_iff]

/-- Changing every value before or after the map is collected. -/
theorem ofList_mapValues (l : List (K × V)) (g : V → W) :
    ofList (l.map fun e => (e.1, g e.2)) = (ofList l).mapValues g := by
  induction l using List.reverseRecOn with
  | nil => rfl
  | append_singleton l e ih =>
    obtain ⟨k, v⟩ := e
    have hinsert : ((ofList l).insert k v).mapValues g =
        ((ofList l).mapValues g).insert k (g v) := by
      refine ext_get? fun k' => ?_
      rw [get?_mapValues, get?_insert, get?_insert, get?_mapValues]
      split <;> rfl
    rw [List.map_append, List.map_singleton, ofList_append, ofList_append, ih, hinsert]

/-! ## Slots -/

theorem get?_upsert_self (m : OrdMap K V) (k : K) (z : V) (f : V → V) :
    (m.upsert k z f).get? k = some (f ((m.get? k).getD z)) := get?_insert_self ..

theorem get?_upsert_ne (m : OrdMap K V) {k k' : K} (z : V) (f : V → V) (h : k' ≠ k) :
    (m.upsert k z f).get? k' = m.get? k' := get?_insert_ne _ _ h

end OrdMap
