import InfiTracing.UtHash

/-!
# `LRU`, the trace level cache's store

The class of `lru.hpp`: a fixed array of entries, threaded through a `uthash` table whose
iteration order is the order of use.  A key is an `unsigned long`, but the table is used
through the `_INT` macros, so it is hashed and compared by its first `sizeof(int)` bytes
(`lowInt`): an entry is found by every key with the same low 32 bits.

`Lru.Linked` is what the operations keep: the linked entries are `entries[0 .. count)`, each
once, under their own keys.
-/

namespace InfiTracing

/-- `LRU_NOT_FOUND`. -/
def lruNotFound : ℤ := -1

/-- The first `sizeof(int)` bytes of an `unsigned long`, in little-endian order. -/
def lowInt (k : UInt64) : UInt32 := k.toUInt32

/-- `LRU::entry`, less its hash handle. -/
structure LruEntry where
  k : UInt64
  v : ℤ

/-- The class `LRU`; an entry's pointer is its index in `entries`. -/
structure Lru where
  capacity : ℕ
  hashHandle : UtHash ℕ
  entries : ℕ → LruEntry

namespace Lru

/-- The constructor.  An entry is written before it is linked, so what the new array contains
does not matter. -/
def create (capacity : ℕ) : Lru where
  capacity := capacity
  hashHandle := none
  entries _ := ⟨0, 0⟩

/-- Write `k` and `v` to an entry that is not linked, and link it. -/
def place (l : Lru) (entry : ℕ) (k : UInt64) (v : ℤ) : Lru :=
  { l with
    entries := Function.update l.entries entry ⟨k, v⟩
    hashHandle := l.hashHandle.hashAdd entry (lowInt k) }

/-- Unlink an entry. -/
def delete (l : Lru) (entry : ℕ) : Lru :=
  { l with hashHandle := l.hashHandle.hashDelete entry }

/-- `insert(k, v)`; `none` where no entry is vacant and none is linked, and the code writes
through a null pointer. -/
def insert (l : Lru) (k : UInt64) (v : ℤ) : Option Lru :=
  if l.hashHandle.hashCount ≥ l.capacity then
    match l.hashHandle.items with
    | [] => none
    | first :: _ => some ((l.delete first.element).place first.element k v)
  else
    some (l.place l.hashHandle.hashCount k v)

/-- `find(k)`: the value, and the LRU with the entry found linked last. -/
def find (l : Lru) (k : UInt64) : ℤ × Lru :=
  match l.hashHandle.hashFind (lowInt k) with
  | none => (lruNotFound, l)
  | some elem => ((l.entries elem).v,
      { l.delete elem with
        hashHandle := (l.delete elem).hashHandle.hashAdd elem (lowInt (l.entries elem).k) })

/-! ## The linked entries -/

/-- The linked entries are the first `count` of the array, each linked once and under its own
key, and there are at most `capacity` of them. -/
structure Linked (l : Lru) : Prop where
  nodup : l.hashHandle.elements.Nodup
  lt_count : ∀ e ∈ l.hashHandle.elements, e < l.hashHandle.elements.length
  key : ∀ h ∈ l.hashHandle.items, h.key = lowInt (l.entries h.element).k
  le_capacity : l.hashHandle.elements.length ≤ l.capacity

lemma linked_create (capacity : ℕ) : (create capacity).Linked := by
  constructor <;> simp [create, UtHash.elements]

/-- The entry of a handle in the table after an insertion: the new one, or an old one as it
was. -/
structure Inserted (l l' : Lru) (k : UInt64) (v : ℤ) : Prop where
  linked : l'.Linked
  capacity : l'.capacity = l.capacity
  entry : ∀ h ∈ l'.hashHandle.items, l'.entries h.element = ⟨k, v⟩ ∨
    h ∈ l.hashHandle.items ∧ l'.entries h.element = l.entries h.element

/-- Placing an entry over one just unlinked. -/
lemma Linked.replace {l : Lru} (hl : l.Linked) {e : ℕ} (he : e ∈ l.hashHandle.elements)
    (k : UInt64) (v : ℤ) : Inserted l ((l.delete e).place e k v) k v := by
  have hperm := UtHash.elements_relink hl.nodup he (lowInt k)
  have hitems : ∀ h, h ∈ ((l.delete e).place e k v).hashHandle.items ↔
      (h ∈ l.hashHandle.items ∧ h.element ≠ e) ∨ h = ⟨e, lowInt k⟩ := by
    intro h
    simp [place, delete]
  refine ⟨⟨hperm.nodup_iff.mpr hl.nodup, fun x hx => ?_, fun h hh => ?_, ?_⟩, rfl, fun h hh => ?_⟩
  · rw [show ((l.delete e).place e k v).hashHandle.elements.length = _ from hperm.length_eq]
    exact hl.lt_count x (hperm.mem_iff.mp hx)
  · rcases (hitems h).mp hh with ⟨hold, hne⟩ | rfl
    · simpa [place, delete, hne] using hl.key h hold
    · simp [place]
  · exact hperm.length_eq.trans_le hl.le_capacity
  · rcases (hitems h).mp hh with ⟨hold, hne⟩ | rfl
    · exact .inr ⟨hold, by simp [place, delete, hne]⟩
    · exact .inl (by simp [place])

/-- Placing the next vacant entry. -/
lemma Linked.extend {l : Lru} (hl : l.Linked) (hroom : l.hashHandle.hashCount < l.capacity)
    (k : UInt64) (v : ℤ) : Inserted l (l.place l.hashHandle.hashCount k v) k v := by
  rw [← UtHash.length_elements] at hroom ⊢
  have hvacant : l.hashHandle.elements.length ∉ l.hashHandle.elements := fun hmem =>
    lt_irrefl _ (hl.lt_count _ hmem)
  have hne : ∀ h ∈ l.hashHandle.items, h.element ≠ l.hashHandle.elements.length := by
    intro h hh heq
    exact hvacant (heq ▸ List.mem_map_of_mem hh)
  refine ⟨⟨?_, fun x hx => ?_, fun h hh => ?_, ?_⟩, rfl, fun h hh => ?_⟩
  · simpa [place, List.nodup_append] using
      ⟨hl.nodup, fun e he => (hl.lt_count e he).ne⟩
  · simp only [place, UtHash.elements_hashAdd, List.mem_append, List.mem_singleton,
      List.length_append, List.length_singleton] at hx ⊢
    rcases hx with hx | rfl
    · exact (hl.lt_count x hx).trans (Nat.lt_succ_self _)
    · exact Nat.lt_succ_self _
  · simp only [place, UtHash.items_hashAdd, List.mem_append, List.mem_singleton] at hh
    rcases hh with hh | rfl
    · simpa [place, hne h hh] using hl.key h hh
    · simp [place]
  · simpa [place] using Nat.succ_le_of_lt hroom
  · simp only [place, UtHash.items_hashAdd, List.mem_append, List.mem_singleton] at hh
    rcases hh with hh | rfl
    · exact .inr ⟨hh, by simp [place, hne h hh]⟩
    · exact .inl (by simp [place])

/-- **The law of `insert`** on an LRU with room for at least one entry. -/
theorem Linked.exists_insert {l : Lru} (hl : l.Linked) (hcap : 1 ≤ l.capacity) (k : UInt64)
    (v : ℤ) : ∃ l', l.insert k v = some l' ∧ Inserted l l' k v := by
  unfold insert
  by_cases hfull : l.hashHandle.hashCount ≥ l.capacity
  · rw [if_pos hfull]
    cases hitems : l.hashHandle.items with
    | nil =>
        rw [UtHash.hashCount, hitems, List.length_nil] at hfull
        omega
    | cons first rest =>
        refine ⟨_, rfl, hl.replace ?_ k v⟩
        simp [UtHash.elements, hitems]
  · exact ⟨_, if_neg hfull, hl.extend (by omega) k v⟩

/-- **The law of `find`**: the entries stay as they are, and so does what is linked. -/
theorem Linked.find {l : Lru} (hl : l.Linked) (k : UInt64) :
    (l.find k).2.Linked ∧ (l.find k).2.capacity = l.capacity ∧
      (l.find k).2.entries = l.entries ∧
      ∀ h ∈ (l.find k).2.hashHandle.items, h ∈ l.hashHandle.items := by
  unfold Lru.find
  cases hfind : l.hashHandle.hashFind (lowInt k) with
  | none => exact ⟨hl, rfl, rfl, fun _ h => h⟩
  | some e =>
      have hmem := UtHash.mem_items_of_hashFind hfind
      have hkey : lowInt k = lowInt (l.entries e).k := hl.key _ hmem
      have hperm := UtHash.elements_relink hl.nodup
        (List.mem_map_of_mem (f := UtHandle.element) hmem) (lowInt (l.entries e).k)
      have hsub : ∀ h ∈ ((l.hashHandle.hashDelete e).hashAdd e (lowInt (l.entries e).k)).items,
          h ∈ l.hashHandle.items := by
        intro h hh
        simp only [UtHash.items_hashAdd, UtHash.items_hashDelete, List.mem_append,
          List.mem_filter, List.mem_singleton] at hh
        rcases hh with hh | rfl
        · exact hh.1
        · exact hkey ▸ hmem
      refine ⟨⟨hperm.nodup_iff.mpr hl.nodup, fun x hx => ?_, fun h hh => hl.key h (hsub h hh), ?_⟩,
        rfl, rfl, hsub⟩
      · exact (hl.lt_count x (hperm.mem_iff.mp hx)).trans_eq hperm.length_eq.symm
      · exact hperm.length_eq.trans_le hl.le_capacity

/-! ## A property of the entries -/

/-- The entry the next insertion writes: a vacant one, or the one used least recently. -/
def nextEntry (l : Lru) : Option ℕ :=
  if l.hashHandle.hashCount ≥ l.capacity then l.hashHandle.items.head?.map UtHandle.element
  else some l.hashHandle.hashCount

/-- An LRU linked as it should be, whose linked entries are as `p` says. -/
structure Holds (p : ℕ → LruEntry → Prop) (l : Lru) : Prop where
  linked : l.Linked
  entry : ∀ h ∈ l.hashHandle.items, p h.element (l.entries h.element)

variable {p p' : ℕ → LruEntry → Prop} {l l' : Lru} {k : UInt64} {v : ℤ}

lemma holds_create (p : ℕ → LruEntry → Prop) (capacity : ℕ) : (create capacity).Holds p :=
  ⟨linked_create capacity, by simp [create]⟩

lemma Holds.find (hl : l.Holds p) (k : UInt64) : (l.find k).2.Holds p := by
  obtain ⟨hlinked, -, hentries, hsub⟩ := hl.linked.find k
  refine ⟨hlinked, fun h hh => ?_⟩
  rw [hentries]
  exact hl.entry h (hsub h hh)

/-- An insertion writes the next entry and leaves the others. -/
lemma Holds.insert (hl : l.Holds p) (h : l.insert k v = some l') :
    ∃ e, l.nextEntry = some e ∧ ∀ p' : ℕ → LruEntry → Prop,
      (∀ e' ≠ e, ∀ entry, p e' entry → p' e' entry) → p' e ⟨k, v⟩ → l'.Holds p' := by
  have hplace : ∀ (m : Lru) (e : ℕ), (∀ h ∈ m.hashHandle.items, h ∈ l.hashHandle.items) →
      m.entries = l.entries → (m.place e k v).Linked → ∀ p' : ℕ → LruEntry → Prop,
      (∀ e' ≠ e, ∀ entry, p e' entry → p' e' entry) → p' e ⟨k, v⟩ → (m.place e k v).Holds p' := by
    intro m e hsub hentries hlinked p' hothers hnew
    refine ⟨hlinked, fun h hh => ?_⟩
    by_cases he : h.element = e
    · rw [he]
      simpa [place] using hnew
    · simp only [place, UtHash.items_hashAdd, List.mem_append, List.mem_singleton] at hh
      have hold : h ∈ l.hashHandle.items := hsub h (hh.resolve_right fun heq => he (by rw [heq]))
      simpa [place, Function.update_of_ne he, hentries] using
        hothers h.element he _ (hl.entry h hold)
  unfold Lru.insert at h
  unfold nextEntry
  split_ifs at h ⊢ with hfull
  · cases hitems : l.hashHandle.items with
    | nil => simp [hitems] at h
    | cons first rest =>
        simp only [hitems, Option.some.injEq] at h
        subst h
        refine ⟨first.element, rfl, hplace _ _ (fun h hh => ?_) rfl ?_⟩
        · simp only [delete, UtHash.items_hashDelete, List.mem_filter] at hh
          exact hh.1
        · exact (hl.linked.replace (by simp [UtHash.elements, hitems]) k v).linked
  · obtain rfl := Option.some.inj h
    exact ⟨_, rfl, hplace _ _ (fun _ hh => hh) rfl (hl.linked.extend (by omega) k v).linked⟩

end Lru

end InfiTracing
