/-
Heapusage.Lib.Tables — hash tables as association lists without repeated keys.

`AList` is the table: its key list has no duplicates by construction, lookup
and insertion are its own, and its entry list is one iteration order (another
order is a permutation of it). Two operations a C++ table has and `AList` does
not are added: the insertion that leaves an existing entry alone, and the list
of stored values with what erasing and inserting do to it.
-/
import Mathlib.Data.List.AList

namespace Tables

universe u v

/-- A table from keys to values of one type. -/
abbrev Table (α : Type u) (β : Type v) := AList (fun _ : α => β)

variable {α : Type u} {β : Type v}

/-- The stored values, in one iteration order. -/
def values (t : Table α β) : List β := t.entries.map Sigma.snd

@[simp] theorem values_empty : values (∅ : Table α β) = [] := rfl

variable [DecidableEq α]

/-- Insertion that leaves an existing entry as it is. -/
def insertNew (a : α) (b : β) (t : Table α β) : Table α β :=
  if a ∈ t then t else t.insert a b

theorem insertNew_of_not_mem {a : α} {b : β} {t : Table α β} (h : a ∉ t) :
    insertNew a b t = t.insert a b := if_neg h

theorem insertNew_of_mem {a : α} {b : β} {t : Table α β} (h : a ∈ t) :
    insertNew a b t = t := if_pos h

theorem not_mem_of_lookup_none {a : α} {t : Table α β} (h : t.lookup a = none) : a ∉ t :=
  AList.lookup_eq_none.mp h

theorem mem_of_lookup {a : α} {b : β} {t : Table α β} (h : t.lookup a = some b) : a ∈ t :=
  AList.lookup_isSome.mp (by rw [h]; rfl)

theorem exists_lookup {a : α} {t : Table α β} (h : a ∈ t) : ∃ b, t.lookup a = some b :=
  Option.isSome_iff_exists.mp (AList.lookup_isSome.mpr h)

theorem lookup_iff_mem_entries {a : α} {b : β} {t : Table α β} :
    t.lookup a = some b ↔ (⟨a, b⟩ : Σ _ : α, β) ∈ t.entries :=
  List.mem_dlookup_iff t.nodupKeys

theorem mem_values {b : β} {t : Table α β} : b ∈ values t ↔ ∃ a, t.lookup a = some b := by
  simp only [values, List.mem_map, lookup_iff_mem_entries]
  constructor
  · intro hboth
    obtain ⟨⟨a, b'⟩, hmem, rfl⟩ := hboth
    exact ⟨a, hmem⟩
  · intro hboth
    obtain ⟨a, hmem⟩ := hboth
    exact ⟨⟨a, b⟩, hmem, rfl⟩

theorem mem_values_of_lookup {a : α} {b : β} {t : Table α β} (h : t.lookup a = some b) :
    b ∈ values t := mem_values.mpr ⟨a, h⟩

/-- Values that carry their own key, key by key. -/
theorem values_map_key {t : Table α β} {f : β → α} (h : ∀ a b, t.lookup a = some b → f b = a) :
    (values t).map f = t.keys := by
  rw [values, List.map_map, AList.keys, List.keys]
  exact List.map_congr_left fun e he => h e.1 e.2 (lookup_iff_mem_entries.mpr he)

/-- So no two are the same. -/
theorem values_nodup {t : Table α β} {f : β → α} (h : ∀ a b, t.lookup a = some b → f b = a) :
    (values t).Nodup := by
  have hmap : ((values t).map f).Nodup := by
    rw [values_map_key h]
    exact t.keys_nodup
  exact hmap.of_map _

theorem values_insert_of_not_mem {a : α} {b : β} {t : Table α β} (h : a ∉ t) :
    values (t.insert a b) = b :: values t := by
  rw [values, AList.entries_insert_of_notMem h]
  rfl

/-- Erasing a key takes its value out of the value list, and nothing else. -/
theorem values_perm_erase {a : α} {b : β} {t : Table α β} (h : t.lookup a = some b) :
    (values t).Perm (b :: values (t.erase a)) := by
  have hmem := lookup_iff_mem_entries.mp h
  obtain ⟨b', l₁, l₂, hl₁, hsplit, herase⟩ :=
    List.exists_of_kerase (List.mem_keys_of_mem hmem)
  have hb : b' = b := by
    have hmem' : (⟨a, b'⟩ : Σ _ : α, β) ∈ t.entries := by rw [hsplit]; simp
    exact t.nodupKeys.eq_of_mk_mem hmem' hmem
  subst hb
  have hentries : (t.erase a).entries = l₁ ++ l₂ := herase
  simp only [values, hentries, hsplit, List.map_append, List.map_cons]
  exact List.perm_middle

/-- Erasing a key that is there takes one entry away. -/
theorem length_values_erase {a : α} {t : Table α β} (h : a ∈ t) :
    (values (t.erase a)).length + 1 = (values t).length := by
  obtain ⟨b, hb⟩ := exists_lookup h
  rw [(values_perm_erase hb).length_eq, List.length_cons]

/-- Inserting over an entry keeps the number of entries. -/
theorem length_values_insert (a : α) (b : β) (t : Table α β) :
    (values (t.insert a b)).length =
      if a ∈ t then (values t).length else (values t).length + 1 := by
  have hinsert : (values (t.insert a b)).length = (values (t.erase a)).length + 1 := by
    rw [values, AList.entries_insert, List.length_map, List.length_cons, values, List.length_map]
    rfl
  split
  · rename_i ha
    rw [hinsert, length_values_erase ha]
  · rename_i ha
    rw [values_insert_of_not_mem ha, List.length_cons]

theorem erase_of_not_mem {a : α} {t : Table α β} (h : a ∉ t) : t.erase a = t :=
  AList.ext (List.kerase_of_notMem_keys h)

theorem mem_insertNew {a k : α} {b : β} {t : Table α β} :
    a ∈ insertNew k b t ↔ a = k ∨ a ∈ t := by
  unfold insertNew
  split
  · rename_i hk
    constructor
    · exact .inr
    · rintro (rfl | h)
      · exact hk
      · exact h
  · exact AList.mem_insert t

theorem lookup_insertNew_ne {a k : α} {b : β} {t : Table α β} (h : a ≠ k) :
    (insertNew k b t).lookup a = t.lookup a := by
  unfold insertNew
  split
  · rfl
  · exact AList.lookup_insert_ne h

/-- The entry that was there first stays. -/
theorem lookup_insertNew_self (a : α) (b : β) (t : Table α β) :
    (insertNew a b t).lookup a = (t.lookup a).or (some b) := by
  unfold insertNew
  split
  · rename_i ha
    obtain ⟨b', hb'⟩ := exists_lookup ha
    simp [hb']
  · rename_i ha
    simp [AList.lookup_eq_none.mpr ha]

theorem lookup_erase_eq_some {a k : α} {b : β} {t : Table α β} :
    (t.erase k).lookup a = some b ↔ a ≠ k ∧ t.lookup a = some b := by
  by_cases h : a = k
  · subst h; simp
  · simp [AList.lookup_erase_ne h, h]

theorem lookup_insert_eq_some {a k : α} {b v : β} {t : Table α β} :
    (t.insert k v).lookup a = some b ↔ (a = k ∧ v = b) ∨ (a ≠ k ∧ t.lookup a = some b) := by
  by_cases h : a = k
  · subst h; simp [AList.lookup_insert]
  · simp [AList.lookup_insert_ne h, h]

end Tables
