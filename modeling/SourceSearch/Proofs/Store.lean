import SourceSearch.Store.Register
import SourceSearch.Store.Table

/-!
# Look-ups in tables and registers

A table is a finite map that lists its entries by key, a register one that lists them by age. Every
operation is described by the look-ups that it leads to: `get?_insert`, `get?_erase`, `get?_modify`
and `get?_insertIfNew` for tables, `get?_insert` for registers. What is listed is what is found
(`mem_entries_iff`), so an invariant of the values can be stated by look-ups alone.
-/

set_option autoImplicit false
set_option linter.unusedSectionVars false

namespace SourceSearch

/-! ## Lists of pairs -/

/-- A look-up among pairs that are made of elements finds the first element of the key. -/
theorem lookup_map_pair {α κ β : Type} [BEq κ] [LawfulBEq κ] (key : α → κ) (value : α → β)
    (as : List α) (k : κ) :
    (as.map fun a => (key a, value a)).lookup k = (as.find? fun a => key a == k).map value := by
  induction as with
  | nil => rfl
  | cons a as ih =>
    rw [List.map_cons, List.lookup_cons, List.find?_cons, ih]
    by_cases hkey : key a = k
    · simp [hkey]
    · have hfalse : (key a == k) = false := beq_eq_false_iff_ne.2 hkey
      have hflip : (k == key a) = false := beq_eq_false_iff_ne.2 fun heq => hkey heq.symm
      rw [hfalse, hflip]

/-! ## Tables -/

namespace Table

variable {κ α : Type} [LE κ] [LT κ] [Std.IsLinearOrder κ] [Std.LawfulOrderLT κ] [DecidableLT κ]
  [DecidableEq κ]

/-- **An entry is listed iff its value is found under its key**, since no key is listed twice. -/
theorem mem_entries_iff {table : Table κ α} {key : κ} {value : α} :
    (key, value) ∈ table.entries ↔ table.get? key = some value := by
  obtain ⟨entries, ascending⟩ := table
  simp only [get?]
  induction entries with
  | nil => simp
  | cons first rest ih =>
    have hfirst := (List.pairwise_cons.1 ascending).1
    have hrest := ih (List.pairwise_cons.1 ascending).2
    by_cases hkey : first.1 = key
    · have habsent : (key, value) ∉ rest := by
        intro hmem
        exact Std.lt_irrefl (hkey ▸ hfirst _ hmem)
      rw [List.find?_cons_of_pos (by simpa using hkey), List.mem_cons]
      constructor
      · rintro (rfl | hmem)
        · rfl
        · exact absurd hmem habsent
      · intro h
        left
        rw [← hkey, ← Option.some.inj h]
    · rw [List.find?_cons_of_neg (by simpa using hkey), ← hrest, List.mem_cons]
      constructor
      · rintro (rfl | hmem)
        · exact absurd rfl hkey
        · exact hmem
      · exact Or.inr

/-- Two tables that answer every look-up alike list the same entries. -/
theorem mem_values_iff {table : Table κ α} {value : α} :
    value ∈ table.values ↔ ∃ key, table.get? key = some value := by
  simp only [values, List.mem_map]
  constructor
  · rintro ⟨⟨key, found⟩, hmem, rfl⟩
    exact ⟨key, mem_entries_iff.1 hmem⟩
  · rintro ⟨key, h⟩
    exact ⟨(key, value), mem_entries_iff.2 h, rfl⟩

/-- The keys are those under which something is found. -/
theorem mem_keys_iff {table : Table κ α} {key : κ} :
    key ∈ table.keys ↔ ∃ value, table.get? key = some value := by
  simp only [keys, List.mem_map]
  constructor
  · rintro ⟨⟨other, value⟩, hmem, rfl⟩
    exact ⟨value, mem_entries_iff.1 hmem⟩
  · rintro ⟨value, h⟩
    exact ⟨(key, value), mem_entries_iff.2 h, rfl⟩

/-- **Two tables that answer every look-up alike are equal.** -/
theorem ext_get? {table other : Table κ α} (h : ∀ key, table.get? key = other.get? key) :
    table = other := by
  have hmem : ∀ e, e ∈ table.entries ↔ e ∈ other.entries := by
    rintro ⟨key, value⟩
    rw [mem_entries_iff, mem_entries_iff, h]
  have hnodup : ∀ t : Table κ α, t.entries.Nodup := by
    intro t
    refine t.ascending.imp ?_
    rintro a b hlt rfl
    exact Std.lt_irrefl hlt
  have hperm := (List.perm_ext_iff_of_nodup (hnodup table) (hnodup other)).2 hmem
  have heq : table.entries = other.entries := by
    refine hperm.eq_of_pairwise ?_ table.ascending other.ascending
    intro a b _ _ hab hba
    exact absurd (Std.lt_trans hab hba) Std.lt_irrefl
  cases table
  cases other
  congr

theorem contains_iff {table : Table κ α} {key : κ} :
    table.contains key = true ↔ ∃ value, table.get? key = some value := by
  rw [contains, Option.isSome_iff_exists]

@[simp] theorem get?_empty (key : κ) : (∅ : Table κ α).get? key = none := rfl

/-- What the list of entries holds after one of them was put in its place. -/
theorem mem_insertEntry_iff {key : κ} {value : α} {entries : List (κ × α)}
    (ascending : entries.Pairwise fun a b => a.1 < b.1) {e : κ × α} :
    e ∈ insertEntry key value entries ↔ e = (key, value) ∨ e.1 ≠ key ∧ e ∈ entries := by
  induction entries with
  | nil => simp [insertEntry]
  | cons first rest ih =>
    have hfirst := (List.pairwise_cons.1 ascending).1
    have hrest := ih (List.pairwise_cons.1 ascending).2
    have hne : ∀ e ∈ rest, key < first.1 ∨ first.1 = key → e.1 ≠ key := by
      rintro e he (h | h) heq
      · exact Std.lt_irrefl (Std.lt_trans h (heq ▸ hfirst e he))
      · exact Std.lt_irrefl (heq ▸ h ▸ hfirst e he)
    simp only [insertEntry]
    split
    next hlt =>
      have hself : first.1 ≠ key := by
        rintro rfl
        exact Std.lt_irrefl hlt
      simp only [List.mem_cons]
      constructor
      · rintro (h | rfl | h)
        · exact Or.inl h
        · exact Or.inr ⟨hself, Or.inl rfl⟩
        · exact Or.inr ⟨hne e h (Or.inl hlt), Or.inr h⟩
      · rintro (h | ⟨-, h⟩)
        · exact Or.inl h
        · exact Or.inr h
    next hlt =>
      split
      next heq =>
        simp only [List.mem_cons]
        constructor
        · rintro (h | h)
          · exact Or.inl h
          · exact Or.inr ⟨hne e h (Or.inr heq), Or.inr h⟩
        · rintro (h | ⟨hkey, rfl | h⟩)
          · exact Or.inl h
          · exact absurd heq hkey
          · exact Or.inr h
      next hself =>
        simp only [List.mem_cons, hrest]
        constructor
        · rintro (rfl | h | ⟨hkey, h⟩)
          · exact Or.inr ⟨hself, Or.inl rfl⟩
          · exact Or.inl h
          · exact Or.inr ⟨hkey, Or.inr h⟩
        · rintro (h | ⟨hkey, h | h⟩)
          · exact Or.inr (Or.inl h)
          · exact Or.inl h
          · exact Or.inr (Or.inr ⟨hkey, h⟩)

/-- **Insertion** changes the value under its key and no other one. -/
theorem get?_insert (table : Table κ α) (key other : κ) (value : α) :
    (table.insert key value).get? other = if other = key then some value else table.get? other := by
  apply Option.ext
  intro found
  rw [← mem_entries_iff]
  show (other, found) ∈ insertEntry key value table.entries ↔ _
  rw [mem_insertEntry_iff table.ascending, mem_entries_iff]
  by_cases h : other = key
  · simp [h, eq_comm]
  · simp [h]

@[simp] theorem get?_insert_self (table : Table κ α) (key : κ) (value : α) :
    (table.insert key value).get? key = some value := by
  rw [get?_insert, if_pos rfl]

/-- Putting in what is there changes nothing. -/
theorem insert_of_get? {table : Table κ α} {key : κ} {value : α}
    (h : table.get? key = some value) : table.insert key value = table := by
  apply ext_get?
  intro other
  rw [get?_insert]
  split
  next heq => rw [heq, h]
  next => rfl

/-- Of two values put in under one key the second one counts. -/
theorem insert_insert (table : Table κ α) (key : κ) (value value' : α) :
    (table.insert key value).insert key value' = table.insert key value' := by
  apply ext_get?
  intro other
  rw [get?_insert, get?_insert, get?_insert]
  split <;> rfl

/-- A key that is greater than all keys goes to the end. -/
theorem entries_insert_of_lt {table : Table κ α} {key : κ} (value : α)
    (h : ∀ e ∈ table.entries, e.1 < key) :
    (table.insert key value).entries = table.entries ++ [(key, value)] := by
  show insertEntry key value table.entries = _
  generalize table.entries = entries at h
  induction entries with
  | nil => rfl
  | cons first rest ih =>
    have hlt : first.1 < key := h first List.mem_cons_self
    have hne : first.1 ≠ key := fun heq => Std.lt_irrefl (heq ▸ hlt)
    rw [insertEntry, if_neg fun hkey => Std.lt_irrefl (Std.lt_trans hlt hkey), if_neg hne,
      ih fun e he => h e (List.mem_cons_of_mem _ he)]
    rfl

/-- **Erasure** takes away the value under its key and no other one. -/
theorem get?_erase (table : Table κ α) (key other : κ) :
    (table.erase key).get? other = if other = key then none else table.get? other := by
  apply Option.ext
  intro found
  rw [← mem_entries_iff]
  simp only [erase, List.mem_filter, decide_eq_true_eq]
  rw [mem_entries_iff]
  by_cases h : other = key <;> simp [h]

/-- Taking away several keys takes away the values under those keys and no other ones. -/
theorem get?_foldl_erase (keys : List κ) (table : Table κ α) (other : κ) :
    (keys.foldl (·.erase ·) table).get? other =
      if other ∈ keys then none else table.get? other := by
  induction keys generalizing table with
  | nil => simp
  | cons key keys ih =>
    rw [List.foldl_cons, ih, get?_erase]
    by_cases h : other = key <;> by_cases hmem : other ∈ keys <;> simp [h, hmem]

/-- **Modification** changes the value under its key, if there is one, and no other one. -/
theorem get?_modify (table : Table κ α) (key other : κ) (change : α → α) :
    (table.modify key change).get? other =
      if other = key then (table.get? key).map change else table.get? other := by
  unfold modify
  cases hkey : table.get? key with
  | none =>
    by_cases h : other = key
    · simp [h, hkey]
    · simp [h]
  | some value =>
    simp only [get?_insert, Option.map_some]

/-- **Entries put in one after the other** are found if no key is listed twice. -/
theorem get?_foldl_insert {β : Type} (change : α → β) {entries : List (κ × α)}
    (hnodup : entries.Pairwise fun a b => a.1 ≠ b.1) (table : Table κ β) (key : κ) :
    (entries.foldl (fun table e => table.insert e.1 (change e.2)) table).get? key =
      ((entries.find? fun e => e.1 = key).map fun e => change e.2).or (table.get? key) := by
  induction entries generalizing table with
  | nil => simp
  | cons first rest ih =>
    obtain ⟨hfirst, hrest⟩ := List.pairwise_cons.1 hnodup
    rw [List.foldl_cons, ih hrest, get?_insert]
    by_cases h : first.1 = key
    · have hnone : rest.find? (fun e => e.1 = key) = none := by
        rw [List.find?_eq_none]
        intro e he
        simpa using fun heq => hfirst e he (h.trans heq.symm)
      simp [hnone, h]
    · have hne : ¬key = first.1 := fun heq => h heq.symm
      simp [h, hne]

/-- No key of a table is listed twice. -/
theorem entries_nodup (table : Table κ α) : table.entries.Pairwise fun a b => a.1 ≠ b.1 := by
  refine table.ascending.imp ?_
  intro a b hlt heq
  exact Std.lt_irrefl (heq ▸ hlt)

/-- Insertion of a new key keeps what is there. -/
theorem get?_insertIfNew (table : Table κ α) (key other : κ) (value : α) :
    (table.insertIfNew key value).get? other =
      (table.get? other).or (if other = key then some value else none) := by
  unfold insertIfNew contains
  cases hkey : table.get? key with
  | none =>
    by_cases h : other = key
    · subst h
      simp [hkey]
    · simp [get?_insert, h]
  | some found =>
    by_cases h : other = key
    · subst h
      simp [hkey]
    · simp [h]

end Table

/-! ## Registers -/

namespace Register

variable {α : Type}

theorem contains_iff {register : Register α} {name : String} :
    register.contains name = true ↔ ∃ value, register.get? name = some value := by
  rw [contains, Option.isSome_iff_exists]

@[simp] theorem get?_empty (name : String) : (empty : Register α).get? name = none := rfl

/-- Insertion of a new name puts its entry at the end. -/
theorem entries_insert_of_not_contains {register : Register α} {name : String}
    (h : register.contains name = false) (value : α) :
    (register.insert name value).entries = register.entries ++ [(name, value)] := by
  simp [insert, h]

/-- A value written over an old one is found in its place. -/
theorem lookup_map_replace (entries : List (String × α)) (name other : String) (value : α) :
    (entries.map fun e => if e.1 = name then (name, value) else e).lookup other =
      if other = name then (entries.lookup name).map fun _ => value else entries.lookup other := by
  induction entries with
  | nil => simp
  | cons first rest ih =>
    obtain ⟨key, found⟩ := first
    rw [List.map_cons]
    by_cases hkey : key = name
    · subst hkey
      by_cases hother : other = key
      · simp [hother]
      · have hfalse : (other == key) = false := by simpa using hother
        simp [List.lookup_cons, hother, hfalse, ih]
    · have hname : (name == key) = false := by simpa using fun h => hkey h.symm
      simp only [hkey, if_false, List.lookup_cons, hname, ih]
      by_cases hother : other = key
      · simp [hother, hkey]
      · have hfalse : (other == key) = false := by simpa using hother
        simp [hfalse]

/-- **Insertion** changes the value under its name and no other one. -/
theorem get?_insert (register : Register α) (name other : String) (value : α) :
    (register.insert name value).get? other =
      if other = name then some value else register.get? other := by
  by_cases hknown : register.contains name = true
  · obtain ⟨found, hfound⟩ := contains_iff.1 hknown
    rw [get?] at hfound
    simp only [insert, hknown, if_true, get?, lookup_map_replace, hfound, Option.map_some]
  · rw [Bool.not_eq_true] at hknown
    rw [get?, entries_insert_of_not_contains hknown, List.lookup_append]
    by_cases hother : other = name
    · have hnone : register.get? name = none := by simpa [contains] using hknown
      rw [get?] at hnone
      simp [hother, hnone]
    · have hfalse : (other == name) = false := by simpa using hother
      simp [List.lookup_cons, hother, hfalse, get?]

/-- A register contains the names of its entries. -/
theorem contains_iff_mem {register : Register α} {name : String} :
    register.contains name = true ↔ name ∈ register.entries.map (·.1) := by
  rw [contains, get?, List.lookup_isSome_iff, List.mem_map]
  simp only [beq_iff_eq]
  exact exists_congr fun _ => and_congr_right fun _ => eq_comm

/-- **Insertion** keeps names distinct. -/
theorem nodup_insert {register : Register α} (hnames : (register.entries.map (·.1)).Nodup)
    (name : String) (value : α) : ((register.insert name value).entries.map (·.1)).Nodup := by
  by_cases hknown : register.contains name = true
  · have hsame : (register.insert name value).entries.map (·.1) = register.entries.map (·.1) := by
      rw [insert, if_pos hknown, List.map_map]
      refine List.map_congr_left fun e _ => ?_
      by_cases he : e.1 = name
      · simp [he]
      · simp [he]
    rwa [hsame]
  · have hnew : name ∉ register.entries.map (·.1) := mt contains_iff_mem.2 hknown
    rw [Bool.not_eq_true] at hknown
    rw [entries_insert_of_not_contains hknown, List.map_append, List.nodup_append]
    refine ⟨hnames, by simp, fun other hother name' hname heq => ?_⟩
    rw [List.map_singleton, List.mem_singleton] at hname
    rw [heq, hname] at hother
    exact hnew hother

/-- Entries of distinct names that the register does not know are put at its end in their order. -/
theorem foldl_insert (entries : List (String × α)) (register : Register α)
    (hnames : ((register.entries ++ entries).map (·.1)).Nodup) :
    entries.foldl (fun vars m => vars.insert m.1 m.2) register = ⟨register.entries ++ entries⟩ := by
  induction entries generalizing register with
  | nil => rw [List.foldl_nil, List.append_nil]
  | cons m entries ih =>
    have hnew : register.contains m.1 = false := by
      rw [← Bool.not_eq_true, contains_iff_mem]
      intro hold
      rw [List.map_append, List.nodup_append] at hnames
      exact hnames.2.2 _ hold _ (List.mem_map_of_mem List.mem_cons_self) rfl
    have hentries := entries_insert_of_not_contains hnew m.2
    rw [List.foldl_cons, ih, hentries, List.append_assoc]
    · rfl
    · rw [hentries, List.append_assoc]
      exact hnames

/-- Whatever is inserted one after the other, names stay distinct. -/
theorem nodup_foldl_insert (entries : List (String × α)) (register : Register α)
    (hnames : (register.entries.map (·.1)).Nodup) :
    ((entries.foldl (fun vars m => vars.insert m.1 m.2) register).entries.map (·.1)).Nodup := by
  induction entries generalizing register with
  | nil => exact hnames
  | cons m entries ih => exact ih _ (nodup_insert hnames m.1 m.2)

end Register

end SourceSearch
