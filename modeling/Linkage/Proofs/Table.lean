import Linkage.Table
import Mathlib.Data.List.Induction
import Mathlib.Data.List.Perm.Basic
import Mathlib.Data.List.Nodup

/-!
# Laws of tables

* **look-ups** — what `get?` finds after `put`, `erase` and `modify`, for any table;
* **entries** — in a table without repeated keys a look-up finds the one entry of the key, and
  taking an entry out leaves the others, up to order;
* **distinct keys** — every operation keeps them distinct;
* **lists** — the elements in order of first occurrence, and the first element of each key.

Counts and conservation laws over the entries follow from the statements about order.
-/

namespace Linkage

namespace Table

variable {κ α β : Type} [DecidableEq κ]

/-! ## Look-ups -/

private theorem lookup_cons_ite (k k' : κ) (v : α) (rest : List (κ × α)) :
    ((k, v) :: rest).lookup k' = if k' = k then some v else rest.lookup k' := by
  rw [List.lookup_cons]
  by_cases h : k' = k
  · rw [if_pos h, beq_iff_eq.mpr h]
  · rw [if_neg h, beq_eq_false_iff_ne.mpr h]

@[simp] theorem get?_put (t : Table κ α) (k k' : κ) (v : α) :
    (t.put k v).get? k' = if k' = k then some v else t.get? k' := by
  show (replaceIn k v t.entries).lookup k' = if k' = k then some v else t.entries.lookup k'
  induction t.entries with
  | nil => exact lookup_cons_ite k k' v []
  | cons e rest ih =>
      obtain ⟨key, value⟩ := e
      unfold replaceIn
      by_cases hkey : key = k
      · subst hkey
        rw [if_pos rfl, lookup_cons_ite, lookup_cons_ite]
        by_cases h : k' = key <;> simp only [h, if_true, if_false]
      · rw [if_neg hkey, lookup_cons_ite, lookup_cons_ite, ih]
        by_cases h : k' = key
        · subst h
          rw [if_pos rfl, if_neg hkey, if_pos rfl]
        · simp only [if_neg h]

@[simp] theorem get?_erase (t : Table κ α) (k k' : κ) :
    (t.erase k).get? k' = if k' = k then none else t.get? k' := by
  show (t.entries.filter (fun e => e.1 ≠ k)).lookup k' =
    if k' = k then none else t.entries.lookup k'
  induction t.entries with
  | nil => simp
  | cons e rest ih =>
      obtain ⟨key, value⟩ := e
      by_cases hkey : key = k
      · subst hkey
        rw [List.filter_cons_of_neg (by simp), ih, lookup_cons_ite]
        by_cases h : k' = key <;> simp only [h, if_true, if_false]
      · rw [List.filter_cons_of_pos (by simpa using hkey), lookup_cons_ite, lookup_cons_ite, ih]
        by_cases h : k' = key
        · subst h
          rw [if_pos rfl, if_neg hkey, if_pos rfl]
        · simp only [if_neg h]

@[simp] theorem get?_modify (t : Table κ α) (k k' : κ) (f : α → α) :
    (t.modify k f).get? k' = if k' = k then (t.get? k).map f else t.get? k' := by
  show (t.entries.map (fun e => if e.1 = k then (e.1, f e.2) else e)).lookup k' =
    if k' = k then (t.entries.lookup k).map f else t.entries.lookup k'
  induction t.entries with
  | nil => simp
  | cons e rest ih =>
      obtain ⟨key, value⟩ := e
      rw [List.map_cons, lookup_cons_ite key k, lookup_cons_ite key k']
      by_cases hkey : key = k
      · subst hkey
        rw [if_pos rfl, if_pos rfl, lookup_cons_ite, ih]
        by_cases h : k' = key
        · simp only [h, if_true, Option.map_some]
        · simp only [if_neg h]
      · have hkey' : ¬ k = key := fun h => hkey h.symm
        rw [if_neg hkey, if_neg hkey', lookup_cons_ite, ih]
        by_cases h : k' = key
        · subst h
          rw [if_pos rfl, if_neg hkey, if_pos rfl]
        · simp only [if_neg h]

theorem contains_eq_false (t : Table κ α) (k : κ) : t.contains k = false ↔ t.get? k = none := by
  simp [contains]

/-- What stands under a key after `put` is the value put or was there before. -/
theorem get?_put_cases {t : Table κ α} {k k' : κ} {v v' : α}
    (h : (t.put k v).get? k' = some v') :
    (k' = k ∧ v' = v) ∨ (k' ≠ k ∧ t.get? k' = some v') := by
  rw [get?_put] at h
  by_cases hk : k' = k
  · rw [if_pos hk] at h
    injection h with h
    exact Or.inl ⟨hk, h.symm⟩
  · rw [if_neg hk] at h
    exact Or.inr ⟨hk, h⟩

/-- What stands under a key after `erase` was there before, under a key that was not erased. -/
theorem get?_erase_cases {t : Table κ α} {k k' : κ} {v : α}
    (h : (t.erase k).get? k' = some v) : k' ≠ k ∧ t.get? k' = some v := by
  rw [get?_erase] at h
  by_cases hk : k' = k
  · rw [if_pos hk] at h
    cases h
  · rw [if_neg hk] at h
    exact ⟨hk, h⟩

/-- What stands under a key after `modify` is the changed value or was there before. -/
theorem get?_modify_cases {t : Table κ α} {k k' : κ} {f : α → α} {old v : α}
    (hold : t.get? k = some old) (h : (t.modify k f).get? k' = some v) :
    (k' = k ∧ v = f old) ∨ (k' ≠ k ∧ t.get? k' = some v) := by
  rw [get?_modify] at h
  by_cases hk : k' = k
  · rw [if_pos hk, hold, Option.map_some] at h
    injection h with h
    exact Or.inl ⟨hk, h.symm⟩
  · rw [if_neg hk] at h
    exact Or.inr ⟨hk, h⟩

/-- A value after a change was there before, or one that reads the same. -/
theorem exists_of_get?_modify {t : Table κ α} {k k' : κ} {f : α → α} (g : α → β)
    (hg : ∀ v, g (f v) = g v) {v : α} (h : (t.modify k f).get? k' = some v) :
    ∃ old, t.get? k' = some old ∧ g old = g v := by
  rw [get?_modify] at h
  by_cases hk : k' = k
  · rw [if_pos hk] at h
    obtain ⟨old, hold, rfl⟩ := Option.map_eq_some_iff.mp h
    exact ⟨old, hk ▸ hold, (hg old).symm⟩
  · rw [if_neg hk] at h
    exact ⟨v, h, rfl⟩

/-! ## Entries and distinct keys -/

/-- No key stands in the table twice. -/
def Distinct (t : Table κ α) : Prop := t.keys.Nodup

theorem mem_of_get? {t : Table κ α} {k : κ} {v : α} (h : t.get? k = some v) :
    (k, v) ∈ t.entries := by
  obtain ⟨before, after, hsplit, _⟩ := List.lookup_eq_some_iff.mp h
  rw [hsplit]
  simp

theorem get?_of_mem {t : Table κ α} (ht : t.Distinct) {k : κ} {v : α} (h : (k, v) ∈ t.entries) :
    t.get? k = some v := by
  obtain ⟨v', hv'⟩ : ∃ v', t.get? k = some v' := by
    cases hget : t.get? k with
    | none =>
        have hne := List.lookup_eq_none_iff.mp hget (k, v) h
        simp at hne
    | some v' => exact ⟨v', rfl⟩
  have heq : (k, v') = (k, v) := List.inj_on_of_nodup_map ht (mem_of_get? hv') h rfl
  rw [hv', (Prod.mk.inj heq).2]

theorem get?_eq_none_iff {t : Table κ α} {k : κ} : t.get? k = none ↔ k ∉ t.keys := by
  unfold get? keys
  rw [List.lookup_eq_none_iff]
  constructor
  · intro h hmem
    obtain ⟨e, he, rfl⟩ := List.mem_map.mp hmem
    have := h e he
    simp at this
  · intro h e he
    have : k ≠ e.1 := fun heq => h (heq ▸ List.mem_map_of_mem he)
    simpa using this

/-- A table in which no key has a value is empty. -/
theorem entries_eq_nil {t : Table κ α} (h : ∀ k v, t.get? k ≠ some v) : t.entries = [] := by
  refine List.eq_nil_iff_forall_not_mem.mpr ?_
  rintro ⟨k, v⟩ hmem
  have hnone : t.get? k = none := Option.eq_none_iff_forall_ne_some.mpr (h k)
  exact get?_eq_none_iff.mp hnone (List.mem_map_of_mem (f := Prod.fst) hmem)

theorem mem_values_of_get? {t : Table κ α} {k : κ} {v : α} (h : t.get? k = some v) :
    v ∈ t.values := List.mem_map_of_mem (f := Prod.snd) (mem_of_get? h)

/-- A key that is new goes to the end. -/
theorem entries_put_of_new {t : Table κ α} {k : κ} (h : t.get? k = none) (v : α) :
    (t.put k v).entries = t.entries ++ [(k, v)] := by
  have hnew : ∀ e ∈ t.entries, e.1 ≠ k := by
    intro e he heq
    exact get?_eq_none_iff.mp h (heq ▸ List.mem_map_of_mem he)
  show replaceIn k v t.entries = t.entries ++ [(k, v)]
  revert hnew
  induction t.entries with
  | nil => intro _; rfl
  | cons e rest ih =>
      intro hnew
      obtain ⟨key, value⟩ := e
      unfold replaceIn
      rw [if_neg (hnew (key, value) List.mem_cons_self),
        ih (fun e he => hnew e (List.mem_cons_of_mem _ he))]
      rfl

/-- Taking out the entry of a key leaves the others. -/
theorem entries_perm_erase {t : Table κ α} (ht : t.Distinct) {k : κ} {v : α}
    (h : t.get? k = some v) : t.entries.Perm ((k, v) :: (t.erase k).entries) := by
  obtain ⟨before, after, hsplit, _⟩ := List.lookup_eq_some_iff.mp h
  have hkeys : (before.map Prod.fst ++ k :: after.map Prod.fst).Nodup := by
    have := ht
    unfold Distinct keys at this
    rwa [hsplit, List.map_append, List.map_cons] at this
  have hmid := List.perm_middle.nodup_iff.mp hkeys
  rw [List.nodup_cons, List.mem_append, not_or] at hmid
  have hothers : (before ++ after).filter (fun e => decide (e.1 ≠ k)) = before ++ after := by
    refine List.filter_eq_self.mpr ?_
    intro e he
    have hne : e.1 ≠ k := by
      rintro rfl
      rcases List.mem_append.mp he with he | he
      · exact hmid.1.1 (List.mem_map_of_mem he)
      · exact hmid.1.2 (List.mem_map_of_mem he)
    simpa using hne
  have herase : (t.erase k).entries = before ++ after := by
    show t.entries.filter (fun e => decide (e.1 ≠ k)) = before ++ after
    rw [hsplit, List.filter_append, List.filter_cons_of_neg (by simp), ← List.filter_append]
    exact hothers
  rw [herase, hsplit]
  exact List.perm_middle

theorem keys_modify (t : Table κ α) (k : κ) (f : α → α) : (t.modify k f).keys = t.keys := by
  show (t.entries.map _).map Prod.fst = t.entries.map Prod.fst
  rw [List.map_map]
  refine List.map_congr_left ?_
  intro e _
  simp only [Function.comp_apply]
  split <;> rfl

theorem Distinct.modify {t : Table κ α} (ht : t.Distinct) (k : κ) (f : α → α) :
    (t.modify k f).Distinct := by
  unfold Distinct
  rw [keys_modify]
  exact ht

theorem Distinct.erase {t : Table κ α} (ht : t.Distinct) (k : κ) : (t.erase k).Distinct :=
  List.Nodup.sublist (List.filter_sublist.map _) ht

theorem Distinct.put {t : Table κ α} (ht : t.Distinct) {k : κ} (h : t.get? k = none) (v : α) :
    (t.put k v).Distinct := by
  unfold Distinct keys
  rw [entries_put_of_new h, List.map_append]
  refine List.nodup_append.mpr ⟨ht, List.nodup_singleton _, ?_⟩
  intro a ha b hb
  rw [List.mem_singleton.mp hb]
  rintro rfl
  exact get?_eq_none_iff.mp h ha

theorem get?_erase_self (t : Table κ α) (k : κ) : (t.erase k).get? k = none := by simp

theorem get?_erase_of_ne (t : Table κ α) {k k' : κ} (h : k' ≠ k) :
    (t.erase k).get? k' = t.get? k' := by simp [h]

/-- Erasing a key that is not there changes nothing. -/
theorem erase_of_new {t : Table κ α} {k : κ} (h : t.get? k = none) : t.erase k = t := by
  have hnew : ∀ e ∈ t.entries, decide (e.1 ≠ k) = true := by
    intro e he
    have : e.1 ≠ k := fun heq => get?_eq_none_iff.mp h (heq ▸ List.mem_map_of_mem he)
    simpa using this
  show Table.mk (t.entries.filter (fun e => decide (e.1 ≠ k))) = t
  rw [List.filter_eq_self.mpr hnew]

/-- Erasing a key after changing its value is erasing the key. -/
theorem erase_modify (t : Table κ α) (k : κ) (f : α → α) : (t.modify k f).erase k = t.erase k := by
  unfold erase modify
  congr 1
  show (t.entries.map _).filter _ = t.entries.filter _
  induction t.entries with
  | nil => rfl
  | cons e rest ih =>
      obtain ⟨key, value⟩ := e
      by_cases hkey : key = k
      · rw [List.map_cons, List.filter_cons_of_neg (by simp [hkey]),
          List.filter_cons_of_neg (by simp [hkey]), ih]
      · rw [List.map_cons, if_neg hkey, List.filter_cons_of_pos (by simpa using hkey),
          List.filter_cons_of_pos (by simpa using hkey), ih]

/-- Putting a value under a known key changes its value. -/
theorem put_of_known {t : Table κ α} (ht : t.Distinct) {k : κ} {old : α} (h : t.get? k = some old)
    (v : α) : t.put k v = t.modify k fun _ => v := by
  have hmem : k ∈ t.entries.map Prod.fst := List.mem_map_of_mem (f := Prod.fst) (mem_of_get? h)
  have hnodup : (t.entries.map Prod.fst).Nodup := ht
  show Table.mk (replaceIn k v t.entries) = Table.mk (t.entries.map _)
  congr 1
  revert hmem hnodup
  induction t.entries with
  | nil => intro hmem _; cases hmem
  | cons e rest ih =>
      intro hmem hnodup
      obtain ⟨key, value⟩ := e
      rw [List.map_cons] at hmem hnodup
      obtain ⟨hfresh, hrest⟩ := List.nodup_cons.mp hnodup
      unfold replaceIn
      by_cases hkey : key = k
      · subst hkey
        -- the key does not come again
        have hothers : ∀ e ∈ rest, (if e.1 = key then (e.1, v) else e) = e := by
          intro e he
          have hne : e.1 ≠ key := by
            rintro rfl
            have hagain := List.mem_map_of_mem (f := Prod.fst) he
            exact hfresh hagain
          rw [if_neg hne]
        rw [if_pos rfl, List.map_cons, if_pos rfl, List.map_congr_left hothers, List.map_id']
      · have hmem : k ∈ rest.map Prod.fst := by
          rcases List.mem_cons.mp hmem with heq | hmem
          · exact absurd heq.symm hkey
          · exact hmem
        rw [if_neg hkey, List.map_cons, if_neg hkey, ih hmem hrest]

theorem Distinct.replace {t : Table κ α} (ht : t.Distinct) {k : κ} {old : α}
    (h : t.get? k = some old) (v : α) : (t.put k v).Distinct := by
  rw [put_of_known ht h]
  exact ht.modify k _

/-! ## Values up to order -/

theorem values_perm_erase {t : Table κ α} (ht : t.Distinct) {k : κ} {v : α}
    (h : t.get? k = some v) : t.values.Perm (v :: (t.erase k).values) :=
  (entries_perm_erase ht h).map Prod.snd

theorem values_perm_modify {t : Table κ α} (ht : t.Distinct) {k : κ} {v : α}
    (h : t.get? k = some v) (f : α → α) : (t.modify k f).values.Perm (f v :: (t.erase k).values) := by
  have hnew : (t.modify k f).get? k = some (f v) := by
    rw [get?_modify, if_pos rfl, h]
    rfl
  have hperm := values_perm_erase (ht.modify k f) hnew
  rwa [erase_modify] at hperm

theorem values_put_of_new {t : Table κ α} {k : κ} (h : t.get? k = none) (v : α) :
    (t.put k v).values = t.values ++ [v] := by
  unfold values
  rw [entries_put_of_new h, List.map_append]
  rfl

/-- One value more is counted. -/
theorem countP_values_put {t : Table κ α} {k : κ} (h : t.get? k = none) (v : α) (p : α → Bool) :
    (t.put k v).values.countP p = t.values.countP p + (if p v then 1 else 0) := by
  rw [values_put_of_new h, List.countP_append, List.countP_singleton]

/-- One value less is counted. -/
theorem countP_values_erase {t : Table κ α} (ht : t.Distinct) {k : κ} {v : α}
    (h : t.get? k = some v) (p : α → Bool) :
    t.values.countP p = (t.erase k).values.countP p + (if p v then 1 else 0) := by
  rw [(values_perm_erase ht h).countP_eq, List.countP_cons]

/-- One value is counted for another. -/
theorem countP_values_replace {t : Table κ α} (ht : t.Distinct) {k : κ} {old : α}
    (h : t.get? k = some old) (v : α) (p : α → Bool) :
    (t.put k v).values.countP p + (if p old then 1 else 0) =
      t.values.countP p + (if p v then 1 else 0) := by
  have hnew : (t.put k v).get? k = some v := by rw [get?_put, if_pos rfl]
  have herase : (t.put k v).erase k = t.erase k := by rw [put_of_known ht h, erase_modify]
  rw [countP_values_erase (ht.replace h v) hnew p, herase, countP_values_erase ht h p]
  omega

/-- A value that is there is counted. -/
theorem countP_values_pos {t : Table κ α} {k : κ} {v : α} (h : t.get? k = some v) {p : α → Bool}
    (hv : p v = true) : 0 < t.values.countP p :=
  List.countP_pos_iff.mpr ⟨v, mem_values_of_get? h, hv⟩

theorem of_countP_values_eq_zero {t : Table κ α} {p : α → Bool} (hnone : t.values.countP p = 0)
    {k : κ} {v : α} (h : t.get? k = some v) : p v = false := by
  refine Bool.not_eq_true _ ▸ fun hv => ?_
  have hpos := countP_values_pos h hv
  omega

/-- Where one value is counted at most, it is under one key. -/
theorem key_eq_of_countP_values {t : Table κ α} (ht : t.Distinct) {p : α → Bool}
    (hone : t.values.countP p ≤ 1) {k k' : κ} {v v' : α} (h : t.get? k = some v) (hv : p v = true)
    (h' : t.get? k' = some v') (hv' : p v' = true) : k' = k := by
  by_contra hne
  have hother : (t.erase k).get? k' = some v' := by
    rw [get?_erase_of_ne _ hne]
    exact h'
  have hpos := countP_values_pos hother hv'
  have hcount := countP_values_erase ht h p
  rw [if_pos hv] at hcount
  omega

/-- A change that a reading of the values does not see. -/
theorem map_values_modify (t : Table κ α) (k : κ) (f : α → α) (g : α → β)
    (hg : ∀ v, g (f v) = g v) : (t.modify k f).values.map g = t.values.map g := by
  show ((t.entries.map _).map Prod.snd).map g = (t.entries.map Prod.snd).map g
  rw [List.map_map, List.map_map, List.map_map]
  refine List.map_congr_left ?_
  intro e _
  simp only [Function.comp_apply]
  split
  · exact hg e.2
  · rfl

end Table

/-! ## Sets in lists -/

section Lists

variable {α : Type} [BEq α] [LawfulBEq α]

theorem mem_insertNew {xs : List α} {x y : α} : y ∈ insertNew xs x ↔ y ∈ xs ∨ y = x := by
  unfold insertNew
  by_cases h : xs.contains x = true
  · rw [if_pos h]
    refine ⟨Or.inl, ?_⟩
    rintro (hy | rfl)
    · exact hy
    · exact List.contains_iff_mem.mp h
  · rw [if_neg h, List.mem_append, List.mem_singleton]

theorem insertNew_of_mem {xs : List α} {x : α} (h : x ∈ xs) : insertNew xs x = xs := by
  unfold insertNew
  rw [if_pos (List.contains_iff_mem.mpr h)]

theorem insertNew_of_not_mem {xs : List α} {x : α} (h : x ∉ xs) : insertNew xs x = xs ++ [x] := by
  unfold insertNew
  rw [if_neg (by simpa using h)]

theorem nodup_insertNew {xs : List α} (h : xs.Nodup) (x : α) :
    (insertNew xs x).Nodup := by
  by_cases hx : x ∈ xs
  · rw [insertNew_of_mem hx]
    exact h
  · rw [insertNew_of_not_mem hx]
    refine List.nodup_append.mpr ⟨h, List.nodup_singleton x, ?_⟩
    rintro y hy z hz rfl
    rw [List.mem_singleton.mp hz] at hy
    exact hx hy

omit [LawfulBEq α] in
theorem distinct_concat (xs : List α) (x : α) : distinct (xs ++ [x]) = insertNew (distinct xs) x := by
  simp [distinct, List.foldl_append]

theorem mem_foldl_insertNew {xs ys : List α} {x : α} :
    x ∈ ys.foldl insertNew xs ↔ x ∈ xs ∨ x ∈ ys := by
  induction ys generalizing xs with
  | nil => simp
  | cons y rest ih => rw [List.foldl_cons, ih, mem_insertNew, List.mem_cons, or_assoc]

theorem mem_distinct {xs : List α} {x : α} : x ∈ distinct xs ↔ x ∈ xs := by
  unfold distinct
  rw [mem_foldl_insertNew, or_iff_right List.not_mem_nil]

end Lists

/-! ## The first of each key -/

section FirstOfEachKey

variable {α β κ : Type} [DecidableEq κ]

/-- Adds an element at the end unless one with its key is there already. -/
def insertNewBy (key : α → κ) (xs : List α) (x : α) : List α :=
  if key x ∈ xs.map key then xs else xs ++ [x]

/-- The first element of each key, in order. -/
def distinctBy (key : α → κ) (xs : List α) : List α :=
  xs.foldl (insertNewBy key) []

theorem prefix_insertNewBy (key : α → κ) (xs : List α) (x : α) : xs <+: insertNewBy key xs x := by
  unfold insertNewBy
  split
  · exact List.prefix_rfl
  · exact List.prefix_append xs [x]

theorem prefix_foldl_insertNewBy (key : α → κ) (xs ys : List α) :
    xs <+: ys.foldl (insertNewBy key) xs := by
  induction ys generalizing xs with
  | nil => exact List.prefix_rfl
  | cons y rest ih => exact (prefix_insertNewBy key xs y).trans (ih _)

theorem distinctBy_concat (key : α → κ) (xs : List α) (x : α) :
    distinctBy key (xs ++ [x]) = insertNewBy key (distinctBy key xs) x := by
  simp [distinctBy, List.foldl_append]

/-- What is kept of one key is the first element that has it. -/
theorem find?_distinctBy (key : α → κ) (xs : List α) (k : κ) :
    (distinctBy key xs).find? (fun x => key x = k) = xs.find? (fun x => key x = k) := by
  induction xs using List.reverseRecOn with
  | nil => rfl
  | append_singleton xs x ih =>
      rw [distinctBy_concat, insertNewBy, List.find?_append, ← ih]
      split
      · rename_i hmem
        -- an element whose key was seen is not the first of any key
        by_cases hk : key x = k
        · obtain ⟨y, hy, hkey⟩ := List.mem_map.mp hmem
          have hsome : ((distinctBy key xs).find? (fun x => key x = k)).isSome := by
            rw [List.find?_isSome]
            exact ⟨y, hy, by simp [hkey, hk]⟩
          rw [Option.or_of_isSome hsome]
        · simp [hk]
      · rw [List.find?_append]

theorem nodup_map_distinctBy (key : α → κ) (xs : List α) : ((distinctBy key xs).map key).Nodup := by
  induction xs using List.reverseRecOn with
  | nil => simp [distinctBy]
  | append_singleton xs x ih =>
      rw [distinctBy_concat, insertNewBy]
      split
      · exact ih
      · rename_i hnew
        rw [List.map_append]
        apply List.nodup_append.mpr
        refine ⟨ih, by simp, ?_⟩
        rintro a ha b hb rfl
        exact hnew (by simpa [List.mem_singleton.mp hb] using ha)

theorem nodup_distinctBy (key : α → κ) (xs : List α) : (distinctBy key xs).Nodup :=
  (nodup_map_distinctBy key xs).of_map key

/-- Where keys are not repeated, there is one element of a key at most. -/
theorem filter_of_nodup_map {key : α → κ} {xs : List α} (h : (xs.map key).Nodup) (k : κ) :
    xs.filter (fun x => key x = k) = (xs.find? fun x => key x = k).toList := by
  induction xs with
  | nil => rfl
  | cons x rest ih =>
      obtain ⟨hfresh, hrest⟩ := List.nodup_cons.mp h
      by_cases hk : key x = k
      · have hnone : rest.filter (fun y => key y = k) = [] := by
          rw [List.filter_eq_nil_iff]
          intro y hy hkey
          have hkey : key y = key x := by simpa [hk] using hkey
          exact hfresh (hkey ▸ List.mem_map_of_mem hy)
        rw [List.filter_cons_of_pos (by simpa using hk), List.find?_cons_of_pos (by simpa using hk),
          hnone]
        rfl
      · rw [List.filter_cons_of_neg (by simpa using hk), List.find?_cons_of_neg (by simpa using hk),
          ih hrest]

theorem filter_distinctBy (key : α → κ) (xs : List α) (k : κ) :
    (distinctBy key xs).filter (fun x => key x = k) = (xs.find? fun x => key x = k).toList := by
  rw [filter_of_nodup_map (nodup_map_distinctBy key xs), find?_distinctBy]

theorem mem_distinctBy {key : α → κ} {xs : List α} {x : α} :
    x ∈ distinctBy key xs ↔ xs.find? (fun y => key y = key x) = some x := by
  rw [← find?_distinctBy]
  constructor
  · intro hx
    cases hfind : (distinctBy key xs).find? (fun y => key y = key x) with
    | none =>
        have hne := List.find?_eq_none.mp hfind x hx
        simp at hne
    | some y =>
        have hkey : key y = key x := by simpa using List.find?_some hfind
        have hy := List.mem_of_find?_eq_some hfind
        rw [List.inj_on_of_nodup_map (nodup_map_distinctBy key xs) hy hx hkey]
  · exact List.mem_of_find?_eq_some

theorem mem_of_mem_distinctBy {key : α → κ} {xs : List α} {x : α} (h : x ∈ distinctBy key xs) :
    x ∈ xs :=
  List.mem_of_find?_eq_some (mem_distinctBy.mp h)

/-- Keys that tell the same elements apart keep the same elements. -/
theorem distinctBy_congr {κ' : Type} [DecidableEq κ'] {key : α → κ} {key' : α → κ'} {xs : List α}
    (h : ∀ x ∈ xs, ∀ y ∈ xs, key x = key y ↔ key' x = key' y) :
    distinctBy key xs = distinctBy key' xs := by
  induction xs using List.reverseRecOn with
  | nil => rfl
  | append_singleton xs x ih =>
      rw [distinctBy_concat, distinctBy_concat,
        ← ih fun y hy z hz => h y (List.mem_append_left _ hy) z (List.mem_append_left _ hz)]
      have hmem : key x ∈ (distinctBy key xs).map key ↔ key' x ∈ (distinctBy key xs).map key' := by
        simp only [List.mem_map]
        apply exists_congr
        intro y
        apply and_congr_right
        intro hy
        exact h y (List.mem_append_left _ (mem_of_mem_distinctBy hy)) x (by simp)
      unfold insertNewBy
      simp only [hmem]

/-- A reading of the elements under which keys stay apart, with keys of its own. -/
theorem filterMap_distinctBy {κ' : Type} [DecidableEq κ'] {key : α → κ} {key' : β → κ'}
    {f : α → Option β}
    (h : ∀ {x y b}, f x = some b → (key y = key x ↔ ∃ b', f y = some b' ∧ key' b' = key' b))
    (xs : List α) :
    (distinctBy key xs).filterMap f = distinctBy key' (xs.filterMap f) := by
  induction xs using List.reverseRecOn with
  | nil => rfl
  | append_singleton xs x ih =>
      rw [distinctBy_concat, List.filterMap_append]
      cases hx : f x with
      | none =>
          have hnone : [x].filterMap f = [] := by simp [hx]
          rw [hnone, List.append_nil, ← ih, insertNewBy]
          split
          · rfl
          · rw [List.filterMap_append, hnone, List.append_nil]
      | some b =>
          have hsome : [x].filterMap f = [b] := by simp [hx]
          have hmem : key x ∈ (distinctBy key xs).map key ↔
              key' b ∈ ((distinctBy key xs).filterMap f).map key' := by
            simp only [List.mem_map, List.mem_filterMap]
            constructor
            · rintro ⟨y, hy, hkey⟩
              obtain ⟨b', hb', hkey'⟩ := (h hx).mp hkey
              exact ⟨b', ⟨y, hy, hb'⟩, hkey'⟩
            · rintro ⟨b', ⟨y, hy, hb'⟩, hkey'⟩
              exact ⟨y, hy, (h hx).mpr ⟨b', hb', hkey'⟩⟩
          rw [hsome, distinctBy_concat, ← ih, insertNewBy, insertNewBy]
          by_cases hkey : key x ∈ (distinctBy key xs).map key
          · rw [if_pos hkey, if_pos (hmem.mp hkey)]
          · rw [if_neg hkey, if_neg (fun h' => hkey (hmem.mpr h')), List.filterMap_append, hsome]

theorem distinct_eq_distinctBy [BEq α] [LawfulBEq α] [DecidableEq α] (xs : List α) :
    distinct xs = distinctBy id xs := by
  induction xs using List.reverseRecOn with
  | nil => rfl
  | append_singleton xs x ih =>
      rw [distinct_concat, distinctBy_concat, ih]
      unfold insertNew insertNewBy
      simp

theorem nodup_distinct [BEq α] [LawfulBEq α] (xs : List α) : (distinct xs).Nodup := by
  classical
  have h := nodup_map_distinctBy id xs
  rwa [List.map_id, ← distinct_eq_distinctBy] at h

/-- A list without repetitions stays as it is. -/
theorem distinct_of_nodup [BEq α] [LawfulBEq α] {xs : List α} (h : xs.Nodup) : distinct xs = xs := by
  induction xs using List.reverseRecOn with
  | nil => rfl
  | append_singleton xs x ih =>
      obtain ⟨hxs, -, hdisjoint⟩ := List.nodup_append.mp h
      have hx : x ∉ xs := fun hmem => hdisjoint x hmem x (by simp) rfl
      rw [distinct_concat, ih hxs, insertNew_of_not_mem hx]

/-- One element more, read and added if it is new. -/
theorem distinct_filterMap_concat [BEq β] (f : α → Option β) (xs : List α) (x : α) :
    distinct ((xs ++ [x]).filterMap f) =
      (f x).elim (distinct (xs.filterMap f)) (insertNew (distinct (xs.filterMap f))) := by
  cases hx : f x with
  | none => simp [hx]
  | some y => simp [hx, distinct_concat]

/-- Taking each element once before a reading loses nothing of it. -/
theorem distinct_filterMap_distinct [BEq α] [LawfulBEq α] [BEq β] [LawfulBEq β]
    (f : α → Option β) (xs : List α) :
    distinct ((distinct xs).filterMap f) = distinct (xs.filterMap f) := by
  induction xs using List.reverseRecOn with
  | nil => rfl
  | append_singleton xs x ih =>
      rw [distinct_concat, distinct_filterMap_concat]
      by_cases hx : x ∈ distinct xs
      · rw [insertNew_of_mem hx, ih]
        cases hf : f x with
        | none => rfl
        | some b =>
            have hb : b ∈ distinct (xs.filterMap f) := by
              rw [mem_distinct, List.mem_filterMap]
              exact ⟨x, mem_distinct.mp hx, hf⟩
            exact (insertNew_of_mem hb).symm
      · rw [insertNew_of_not_mem hx, distinct_filterMap_concat, ih]

end FirstOfEachKey

/-! ## Sorted texts -/

theorem mem_insertText {x y : String} {xs : List String} :
    y ∈ insertText x xs ↔ y = x ∨ y ∈ xs := by
  induction xs with
  | nil => simp [insertText]
  | cons z rest ih =>
      unfold insertText
      split
      · exact List.mem_cons
      · rw [List.mem_cons, ih, List.mem_cons]
        exact or_left_comm

/-- Sorting keeps what is there. -/
theorem mem_sortedTexts {y : String} {xs : List String} : y ∈ sortedTexts xs ↔ y ∈ xs := by
  unfold sortedTexts
  induction xs with
  | nil => exact Iff.rfl
  | cons x rest ih => rw [List.foldr_cons, mem_insertText, ih, List.mem_cons]

end Linkage
