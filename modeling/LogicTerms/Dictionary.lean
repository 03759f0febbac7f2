/-
**Dictionaries.**

A dictionary gives values to keys, at most one to each.  It is a list of entries with distinct keys,
the last inserted first; what it means is the function `find?`.

Main definitions:

* `Dictionary` — entries with distinct keys;
* `Dictionary.find?`, `Dictionary.insert`, `Dictionary.size` — the operations;
* `Dictionary.ofList` — a dictionary of given entries, later ones replacing earlier ones;
* `Dictionary.sorted` — the entries in the order of their keys;
* `Dictionary.Listing` — the entries in any order;
* `Dictionary.same` — the same keys with equal values.

Main results:

* `Dictionary.find?_insert_self`, `Dictionary.find?_insert_of_ne` — what insertion does to `find?`;
* `Dictionary.mem_entries_iff` — the entries are the pairs of `find?`;
* `Dictionary.size_insert` — a new key adds one to the size.
-/

set_option relaxedAutoImplicit false
set_option autoImplicit false

namespace LogicTerms

/-- A finite set of keys with a value for each. -/
structure Dictionary (κ α : Type) where
  /-- The keys with their values. -/
  entries : List (κ × α)
  /-- No key is there twice. -/
  distinct : (entries.map Prod.fst).Nodup

namespace Dictionary

variable {κ α : Type} [DecidableEq κ]

/-- No keys. -/
def empty : Dictionary κ α := ⟨[], List.nodup_nil⟩

/-- The value of a key. -/
def find? (d : Dictionary κ α) (k : κ) : Option α := d.entries.lookup k

/-- The key has a value. -/
def contains (d : Dictionary κ α) (k : κ) : Bool := (d.find? k).isSome

/-- The number of keys. -/
def size (d : Dictionary κ α) : Nat := d.entries.length

/-- The dictionary in which the key has the value, in place of any that it had. -/
def insert (d : Dictionary κ α) (k : κ) (a : α) : Dictionary κ α where
  entries := (k, a) :: d.entries.filter (·.1 ≠ k)
  distinct := by
    refine List.nodup_cons.mpr ⟨?_, ?_⟩
    · simp
    · exact d.distinct.sublist (List.filter_sublist.map Prod.fst)

/-- The dictionary of the entries; of two with one key the later counts. -/
def ofList (entries : List (κ × α)) : Dictionary κ α :=
  entries.foldl (fun d e => d.insert e.1 e.2) empty

/-- The entries in the order of their keys. -/
def sorted (le : κ → κ → Bool) (d : Dictionary κ α) : List (κ × α) :=
  d.entries.mergeSort fun e f => le e.1 f.1

/-- The entries of a dictionary in some order, which need not be that of their keys. -/
structure Listing (d : Dictionary κ α) where
  /-- The entries in this order. -/
  entries : List (κ × α)
  /-- All entries are there, each once. -/
  perm : entries.Perm d.entries

/-- The listing in the order of the keys. -/
def Listing.sorted (le : κ → κ → Bool) (d : Dictionary κ α) : d.Listing :=
  ⟨d.sorted le, List.mergeSort_perm _ _⟩

/-- The same keys, with equal values. -/
def same (equal : α → α → Bool) (d e : Dictionary κ α) : Bool :=
  d.size == e.size && d.entries.all fun p => (e.find? p.1).any (equal p.2)

/-! ### What the operations do to `find?` -/

@[simp] theorem find?_empty (k : κ) : (empty : Dictionary κ α).find? k = none := rfl

/-- A key that was inserted has the value that was inserted with it. -/
@[simp] theorem find?_insert_self (d : Dictionary κ α) (k : κ) (a : α) :
    (d.insert k a).find? k = some a := by
  rw [find?, insert, List.lookup_cons, beq_self_eq_true]

/-- An entry of another key is passed over. -/
theorem lookup_cons_of_ne {k l : κ} (a : α) (es : List (κ × α)) (h : l ≠ k) :
    ((k, a) :: es).lookup l = es.lookup l := by
  rw [List.lookup_cons, beq_eq_false_iff_ne.mpr h]

/-- Other keys keep their values. -/
theorem find?_insert_of_ne (d : Dictionary κ α) {k l : κ} (a : α) (h : l ≠ k) :
    (d.insert k a).find? l = d.find? l := by
  rw [find?, insert, lookup_cons_of_ne a _ h, find?]
  induction d.entries with
  | nil => rfl
  | cons e es ih =>
    by_cases he : e.1 = k
    · rw [List.filter_cons_of_neg (by simpa using he), ih, lookup_cons_of_ne e.2 es (he ▸ h)]
    · rw [List.filter_cons_of_pos (by simpa using he), List.lookup_cons, List.lookup_cons, ih]

/-- The entries are the pairs of `find?`. -/
theorem mem_entries_iff (d : Dictionary κ α) (k : κ) (a : α) :
    (k, a) ∈ d.entries ↔ d.find? k = some a := by
  obtain ⟨es, hd⟩ := d
  simp only [find?]
  induction es with
  | nil => simp
  | cons e es ih =>
    obtain ⟨l, b⟩ := e
    have hd' := List.nodup_cons.mp hd
    by_cases h : k = l
    · subst h
      have hk : (k, a) ∉ es := fun hm => hd'.1 (List.mem_map.mpr ⟨(k, a), hm, rfl⟩)
      simp [hk, eq_comm]
    · rw [lookup_cons_of_ne b es h, ← ih hd'.2]
      simp [h]

/-- A new key adds one to the size. -/
theorem size_insert (d : Dictionary κ α) {k : κ} (a : α) (h : d.find? k = none) :
    (d.insert k a).size = d.size + 1 := by
  have hf : d.entries.filter (·.1 ≠ k) = d.entries := by
    refine List.filter_eq_self.mpr fun e he => decide_eq_true fun hk => ?_
    have hm := (d.mem_entries_iff k e.2).mp (hk ▸ he)
    rw [h] at hm
    exact nomatch hm
  simp only [size, insert, hf, List.length_cons]

end Dictionary

end LogicTerms
