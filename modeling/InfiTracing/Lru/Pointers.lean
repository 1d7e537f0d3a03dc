import InfiTracing.Lru.Order
import InfiTracing.UtHash.Runs

/-!
# `LRU`, on the pointers of its hash

The class of `lru.hpp` with the table in memory instead of the list of linked entries.  The array
of entries is as `new` leaves it, handles and all.

`lru_exec` is the refinement: whatever calls are made on an LRU with room for at least one entry,
`find` returns what it returns of `Lru`, and the destructor gives back the table.
-/

namespace InfiTracing

open Framework

/-- The class `LRU`; an entry's pointer is its index in `entries`. -/
structure LruMemory where
  capacity : ℕ
  /-- `hash_handle`, and the handles in the entries. -/
  hashHandle : UtMemory ℕ
  entries : ℕ → LruEntry

namespace LruMemory

/-- The entry that `insert` writes to, after it has been unlinked if it was in use; `none` where
the pointer is still `NULL`. -/
def vacate (x : LruMemory) : Option (ℕ × UtMemory ℕ) := do
  let usedSize ← x.hashHandle.hashCount
  if usedSize ≥ x.capacity then
    -- HASH_ITER(hh, hash_handle, entry, tmp_entry) { HASH_DEL(hash_handle, entry); break; }
    let entry ← x.hashHandle.head
    let hashHandle ← x.hashHandle.hashDelete entry
    some (entry, hashHandle)
  else
    some (usedSize, x.hashHandle)

/-- `insert(k, v)`. -/
def insert (x : LruMemory) (k : UInt64) (v : ℤ) : Option LruMemory := do
  let (entry, hashHandle) ← x.vacate
  let hashHandle ← hashHandle.hashAdd entry (lowInt k)
  some { x with hashHandle, entries := Function.update x.entries entry ⟨k, v⟩ }

/-- `find(k)`. -/
def find (x : LruMemory) (k : UInt64) : Option (ℤ × LruMemory) := do
  match ← x.hashHandle.hashFind (lowInt k) with
  | none => some (lruNotFound, x)
  | some elem =>
      let hashHandle ← x.hashHandle.hashDelete elem
      let hashHandle ← hashHandle.hashAdd elem (lowInt (x.entries elem).k)
      some ((x.entries elem).v, { x with hashHandle })

/-- What is in memory is the LRU; entries that are not linked may have anything in them. -/
structure Refines (x : LruMemory) (l : Lru) : Prop where
  capacity : x.capacity = l.capacity
  hash : x.hashHandle.Represents l.hashHandle
  entries : ∀ e ∈ l.hashHandle.elements, x.entries e = l.entries e
  linked : l.Linked

variable {x : LruMemory} {l : Lru} {k : UInt64} {v : ℤ}

/-- An entry that is not linked is written and linked. -/
lemma Refines.place (hx : x.Refines l) {m : UtMemory ℕ} {l₁ : Lru} {e : ℕ}
    (hm : m.Represents l₁.hashHandle) (hcapacity : l₁.capacity = l.capacity)
    (hentries : l₁.entries = l.entries)
    (hsub : ∀ e' ∈ l₁.hashHandle.elements, e' ∈ l.hashHandle.elements)
    (hnew : e ∉ l₁.hashHandle.elements) (hlinked : (l₁.place e k v).Linked) :
    ∃ m', m.hashAdd e (lowInt k) = some m' ∧
      Refines { x with hashHandle := m', entries := Function.update x.entries e ⟨k, v⟩ }
        (l₁.place e k v) := by
  obtain ⟨m', hadd, hm'⟩ := represents_hashAdd hm hnew (lowInt k)
  refine ⟨m', hadd, hx.capacity.trans hcapacity.symm, hm', fun e' he' => ?_, hlinked⟩
  by_cases heq : e' = e
  · simp [heq, Lru.place]
  · have hold : e' ∈ l₁.hashHandle.elements := by simpa [Lru.place, heq] using he'
    simp [Lru.place, heq, hentries, hx.entries e' (hsub e' hold)]

/-- **The law of `insert`** on the pointers. -/
theorem Refines.insert (hx : x.Refines l) {l' : Lru} (h : l.insert k v = some l') :
    ∃ x', x.insert k v = some x' ∧ x'.Refines l' := by
  unfold Lru.insert at h
  split_ifs at h with hfull
  · cases hitems : l.hashHandle.items with
    | nil => simp [hitems] at h
    | cons first rest =>
        rw [hitems] at h
        obtain rfl := Option.some.inj h
        have helements : l.hashHandle.elements = first.element :: rest.map UtHandle.element := by
          rw [UtHash.elements, hitems, List.map_cons]
        have hmem : first.element ∈ l.hashHandle.elements := helements ▸ List.mem_cons_self
        have hfirst : x.hashHandle.head = some first.element := by
          rw [hx.hash.head_eq, helements, List.head?_cons]
        obtain ⟨m, hdelete, hm⟩ := represents_hashDelete hx.hash hmem
        have hvacate : x.vacate = some (first.element, m) := by
          simp [LruMemory.vacate, hx.hash.hashCount, hx.capacity, hfull, hfirst, hdelete]
        have hdeleted : (l.delete first.element).hashHandle.elements =
            l.hashHandle.elements.filter (· ≠ first.element) := UtHash.elements_hashDelete _ _
        have hm : m.Represents (l.delete first.element).hashHandle := hm
        obtain ⟨m', hadd, hx'⟩ := hx.place hm rfl rfl
          (fun e he => List.mem_of_mem_filter (hdeleted ▸ he))
          (by rw [hdeleted]; simp) (hx.linked.replace hmem k v).linked
        refine ⟨_, ?_, hx'⟩
        simp only [LruMemory.insert, hvacate, Option.bind_eq_bind, Option.bind_some, hadd]
  · obtain rfl := Option.some.inj h
    have hroom : l.hashHandle.hashCount < l.capacity := by omega
    have hvacate : x.vacate = some (l.hashHandle.hashCount, x.hashHandle) := by
      simp [LruMemory.vacate, hx.hash.hashCount, hx.capacity, hfull]
    have hnew : l.hashHandle.hashCount ∉ l.hashHandle.elements := by
      rw [← UtHash.length_elements]
      exact fun hmem => lt_irrefl _ (hx.linked.lt_count _ hmem)
    obtain ⟨m', hadd, hx'⟩ := hx.place hx.hash rfl rfl (fun _ he => he) hnew
      (hx.linked.extend hroom k v).linked
    refine ⟨_, ?_, hx'⟩
    simp only [LruMemory.insert, hvacate, Option.bind_eq_bind, Option.bind_some, hadd]

/-- **The law of `find`** on the pointers. -/
theorem Refines.find (hx : x.Refines l) (k : UInt64) :
    ∃ x', x.find k = some ((l.find k).1, x') ∧ x'.Refines (l.find k).2 := by
  have hlaw := hx.linked.find k
  unfold Lru.find at hlaw ⊢
  unfold LruMemory.find
  rw [hx.hash.hashFind]
  simp only [Option.bind_eq_bind, Option.bind_some]
  cases hfind : l.hashHandle.hashFind (lowInt k) with
  | none => exact ⟨x, rfl, hx⟩
  | some elem =>
      have hmem : elem ∈ l.hashHandle.elements :=
        List.mem_map_of_mem (UtHash.mem_items_of_hashFind hfind)
      have hdeleted : (l.delete elem).hashHandle.elements =
          l.hashHandle.elements.filter (· ≠ elem) := UtHash.elements_hashDelete _ _
      have hnew : elem ∉ (l.delete elem).hashHandle.elements := by
        rw [hdeleted]
        simp
      obtain ⟨m, hdelete, hm⟩ := represents_hashDelete hx.hash hmem
      obtain ⟨m', hadd, hm'⟩ := represents_hashAdd hm hnew (lowInt (l.entries elem).k)
      rw [hfind] at hlaw
      refine ⟨{ x with hashHandle := m' }, ?_, hx.capacity, hm', fun e he => ?_, hlaw.1⟩
      · simp only [hdelete, Option.bind_some, hx.entries elem hmem, hadd]
      · rw [UtHash.elements_hashAdd, hdeleted, List.mem_append, List.mem_singleton] at he
        rcases he with he | rfl
        · exact hx.entries e (List.mem_of_mem_filter he)
        · exact hx.entries e hmem

end LruMemory

/-! ## Runs -/

/-- All sequences of calls on an LRU. -/
def lruCalls (capacity : ℕ) : Machine Lru LruCall where
  init l := l = .create capacity
  step l
    | .find k => some (l.find k).2
    | .insert k v => l.insert k v

/-- The same on the pointers.  The constructor leaves the entries as `new` does. -/
def lruMemory (capacity : ℕ) : Machine LruMemory LruCall where
  init x := x.capacity = capacity ∧ (utMemory ℕ).init x.hashHandle
  step x
    | .find k => (x.find k).map Prod.snd
    | .insert k v => x.insert k v

namespace LruMemory

variable {x : LruMemory} {l : Lru}

lemma refines_create {capacity : ℕ} (hinit : (lruMemory capacity).init x) :
    x.Refines (.create capacity) :=
  ⟨hinit.1, hinit.2, fun e he => by simp [Lru.create, UtHash.elements] at he,
    Lru.linked_create capacity⟩

/-- A call. -/
lemma Refines.step (capacity : ℕ) (hx : x.Refines l) (hcap : 1 ≤ l.capacity) (call : LruCall) :
    ∃ x' l', (lruMemory capacity).step x call = some x' ∧
      (lruCalls capacity).step l call = some l' ∧ x'.Refines l' ∧ l'.capacity = l.capacity := by
  cases call with
  | find k =>
      obtain ⟨x', hfind, hx'⟩ := hx.find k
      exact ⟨x', (l.find k).2, by simp [lruMemory, hfind], rfl, hx', (hx.linked.find k).2.1⟩
  | insert k v =>
      obtain ⟨l', hinsert, hl'⟩ := hx.linked.exists_insert hcap k v
      obtain ⟨x', hinsert', hx'⟩ := hx.insert hinsert
      exact ⟨x', l', hinsert', hinsert, hx', hl'.capacity⟩

/-- A run. -/
lemma Refines.exec (capacity : ℕ) (hx : x.Refines l) (hcap : 1 ≤ l.capacity)
    (calls : List LruCall) : ∃ x' l', (lruMemory capacity).exec x calls = some x' ∧
      (lruCalls capacity).exec l calls = some l' ∧ x'.Refines l' := by
  induction calls generalizing x l with
  | nil => exact ⟨x, l, rfl, rfl, hx⟩
  | cons call calls ih =>
      obtain ⟨x₁, l₁, hstep, hstep', hx₁, hcapacity⟩ := hx.step capacity hcap call
      obtain ⟨x', l', hrun, hrun', hx'⟩ := ih hx₁ (hcap.trans_eq hcapacity.symm)
      refine ⟨x', l', ?_, ?_, hx'⟩
      · rw [Machine.exec_cons, hstep]
        exact hrun
      · rw [Machine.exec_cons, hstep']
        exact hrun'

end LruMemory

/-- **The LRU on its pointers is the LRU.**  After any calls on an LRU with room for at least one
entry, no pointer has been `NULL` or gone astray where it was used, and `find` returns what it
returns of the list of entries.  The destructor unlinks each linked entry once and gives back the
table. -/
theorem lru_exec {capacity : ℕ} (hcap : 1 ≤ capacity) {x : LruMemory}
    (hinit : (lruMemory capacity).init x) (calls : List LruCall) :
    ∃ x' l', (lruMemory capacity).exec x calls = some x' ∧
      (lruCalls capacity).exec (.create capacity) calls = some l' ∧
      (∀ k, (x'.find k).map Prod.fst = some (l'.find k).1) ∧
      x'.hashHandle.hashFsck = some true ∧
      ∀ cells, ∃ m, x'.hashHandle.deleteAll cells l'.hashHandle.hashCount x'.hashHandle.head
        (x'.hashHandle.head.bind x'.hashHandle.app.next) = some (l'.hashHandle.elements, m) ∧
        m.head = none ∧ ∀ id, m.tables id = none := by
  obtain ⟨x', l', hrun, hrun', hx'⟩ :=
    (LruMemory.refines_create hinit).exec capacity hcap calls
  refine ⟨x', l', hrun, hrun', fun k => ?_, hx'.hash.hashFsck, fun cells => ?_⟩
  · obtain ⟨x'', hfind, -⟩ := hx'.find k
    rw [hfind, Option.map_some]
  · exact hx'.hash.deleteAll cells (UtHash.length_elements l'.hashHandle).le

/-- Two entries and three keys. -/
theorem lru_exec_threeKeys :
    ∃ x' l', (lruMemory 2).exec ⟨2, ⟨none, ⟨fun _ => some 9, fun _ => some 9⟩,
        ⟨fun _ => some 9, fun _ => some 9⟩, fun _ => 0, fun _ => 0, fun _ => 0,
        fun _ => none, 0⟩, fun _ => ⟨7, 7⟩⟩ threeKeys = some x' ∧
      (lruCalls 2).exec (.create 2) threeKeys = some l' ∧
      (∀ k, (x'.find k).map Prod.fst = some (l'.find k).1) ∧
      x'.hashHandle.hashFsck = some true ∧
      ∀ cells, ∃ m, x'.hashHandle.deleteAll cells l'.hashHandle.hashCount x'.hashHandle.head
        (x'.hashHandle.head.bind x'.hashHandle.app.next) = some (l'.hashHandle.elements, m) ∧
        m.head = none ∧ ∀ id, m.tables id = none :=
  lru_exec (by decide) ⟨rfl, rfl, fun _ => rfl⟩ threeKeys

end InfiTracing
