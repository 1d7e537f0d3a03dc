import InfiTracing.Framework.Machine
import InfiTracing.Framework.Recency
import InfiTracing.Lru

/-!
# Which entries of an `LRU` are found

The order of use, which `lru.hpp` keeps only as the insertion order of the hash.  `Lru.keys`
are the keys of the linked entries in that order, the least recently used first, and
`keys_find` and `keys_insert` say how the operations move them.

`lruMachine` is every sequence of calls in which a key is inserted right after it has not been
found, and never with the value `LRU_NOT_FOUND`.  Beside the run stands what its caller has
seen: the keys inserted or found, the latest first, and the value last inserted for each.  The
invariant is `Ordered`: the keys of the linked entries are the `capacity` keys touched last,
in that order.  `find_eq_expected` is the least-recently-used law that follows.
-/

namespace InfiTracing

open Framework

namespace Lru

variable {l l' : Lru} {k : UInt64} {v : ℤ}

/-! ## The keys in the order of use -/

/-- The keys of the linked entries, the least recently used first. -/
def keys (l : Lru) : List UInt64 := l.hashHandle.elements.map fun e => (l.entries e).k

lemma length_keys (l : Lru) : l.keys.length = l.hashHandle.hashCount := by
  rw [keys, List.length_map, UtHash.length_elements]

@[simp] lemma keys_create (capacity : ℕ) : (create capacity).keys = [] := rfl

/-- The linked entries are the first ones of the array. -/
lemma Linked.perm_range (hl : l.Linked) :
    l.hashHandle.elements.Perm (List.range l.hashHandle.hashCount) := by
  rw [← UtHash.length_elements]
  refine (List.subperm_of_subset hl.nodup fun e he => ?_).perm_of_length_le ?_
  · exact List.mem_range.mpr (hl.lt_count e he)
  · rw [List.length_range]

/-- The entries with other keys, where the one with the key `k` is taken out of its place and
put to the end. -/
lemma map_relink {ι : Type} [DecidableEq ι] {elements : List ι} {f : ι → UInt64}
    (hkeys : (elements.map f).Nodup) {e : ι} (he : e ∈ elements) :
    (elements.filter (· ≠ e) ++ [e]).map f =
      (elements.map f).filter (· ≠ f e) ++ [f e] := by
  rw [List.map_append, List.filter_map, List.map_singleton]
  congr 2
  apply List.filter_congr
  intro x hx
  have hinj := List.inj_on_of_nodup_map hkeys hx he
  have hiff : x = e ↔ f x = f e := ⟨fun h => congrArg f h, hinj⟩
  simpa using hiff

/-- An entry that is not linked is written and put to the end. -/
lemma keys_place {e : ℕ} (hvacant : e ∉ l.hashHandle.elements) :
    (l.place e k v).keys = l.keys ++ [k] := by
  have hold : ∀ x ∈ l.hashHandle.elements,
      ((l.place e k v).entries x).k = (l.entries x).k := by
    intro x hx
    simp [place, ne_of_mem_of_not_mem hx hvacant]
  have hnew : ((l.place e k v).entries e).k = k := by simp [place]
  have helements : (l.place e k v).hashHandle.elements = l.hashHandle.elements ++ [e] := by
    rw [place, UtHash.elements_hashAdd]
  rw [keys, helements, List.map_append, List.map_singleton, hnew, List.map_congr_left hold]
  rfl

/-- The first of the linked entries is taken out. -/
lemma keys_delete_first (hl : l.Linked) {first : ℕ} {rest : List ℕ}
    (helements : l.hashHandle.elements = first :: rest) :
    (l.delete first).hashHandle.elements = rest ∧ (l.delete first).keys = l.keys.tail := by
  have hnodup := hl.nodup
  rw [helements, List.nodup_cons] at hnodup
  have hrest : (l.delete first).hashHandle.elements = rest := by
    rw [delete, UtHash.elements_hashDelete, helements, List.filter_cons_of_neg (by simp),
      filter_ne_of_notMem hnodup.1]
  refine ⟨hrest, ?_⟩
  rw [keys, hrest, keys, helements, List.map_cons, List.tail_cons]
  rfl

/-- **The law of `insert`**, on the keys: where all entries are in use, the least recently used
key goes. -/
theorem keys_insert (hl : l.Linked) (h : l.insert k v = some l') :
    l'.keys = (if l.hashHandle.hashCount ≥ l.capacity then l.keys.tail else l.keys) ++ [k] := by
  unfold insert at h
  split_ifs at h ⊢ with hfull
  · cases hitems : l.hashHandle.items with
    | nil => simp [hitems] at h
    | cons first rest =>
        simp only [hitems, Option.some.injEq] at h
        have helements : l.hashHandle.elements =
            first.element :: rest.map UtHandle.element := by
          rw [UtHash.elements, hitems, List.map_cons]
        have hfirst := (List.nodup_cons.mp (helements ▸ hl.nodup)).1
        obtain ⟨hrest, htail⟩ := keys_delete_first hl helements
        rw [← h, keys_place (hrest ▸ hfirst), htail]
  · rw [← Option.some.inj h]
    apply keys_place
    intro hmem
    have hlt := hl.lt_count _ hmem
    rw [UtHash.length_elements] at hlt
    exact lt_irrefl _ hlt

/-! ## Keys that differ in their low halves -/

/-- The linked entries have different keys, all of them from `codes`. -/
structure Keyed (codes : Set UInt64) (l : Lru) : Prop where
  linked : l.Linked
  nodup : l.keys.Nodup
  mem : ∀ k ∈ l.keys, k ∈ codes

lemma keyed_create (codes : Set UInt64) (capacity : ℕ) : (create capacity).Keyed codes :=
  ⟨linked_create capacity, by simp, by simp⟩

section Keyed

variable {codes : Set UInt64} (hcodes : Set.InjOn lowInt codes)

include hcodes

/-- The entry found has the key. -/
lemma Keyed.key_of_hashFind (hl : l.Keyed codes) (hk : k ∈ codes) {e : ℕ}
    (hfind : l.hashHandle.hashFind (lowInt k) = some e) :
    e ∈ l.hashHandle.elements ∧ (l.entries e).k = k := by
  have hitem := UtHash.mem_items_of_hashFind hfind
  have hmem : e ∈ l.hashHandle.elements := List.mem_map_of_mem (f := UtHandle.element) hitem
  exact ⟨hmem, hcodes (hl.mem _ (List.mem_map_of_mem hmem)) hk (hl.linked.key _ hitem).symm⟩

lemma Keyed.hashFind_eq_none_iff (hl : l.Keyed codes) (hk : k ∈ codes) :
    l.hashHandle.hashFind (lowInt k) = none ↔ k ∉ l.keys := by
  constructor
  · intro hnone hmem
    obtain ⟨e, he, rfl⟩ := List.mem_map.mp hmem
    obtain ⟨h, hh, rfl⟩ := List.mem_map.mp he
    exact UtHash.hashFind_eq_none_iff.mp hnone h hh (hl.linked.key h hh)
  · intro hnot
    cases hfind : l.hashHandle.hashFind (lowInt k) with
    | none => rfl
    | some e =>
        obtain ⟨hmem, hkey⟩ := hl.key_of_hashFind hcodes hk hfind
        exact absurd (List.mem_map.mpr ⟨e, hmem, hkey⟩) hnot

/-- A key that is not linked is not found. -/
lemma Keyed.find_of_notMem (hl : l.Keyed codes) (hk : k ∈ codes) (hnot : k ∉ l.keys) :
    l.find k = (lruNotFound, l) := by
  rw [Lru.find, (hl.hashFind_eq_none_iff hcodes hk).mpr hnot]

/-- **The law of `find`**, on the keys: a linked key is put to the end, and the value is the one
in its entry. -/
theorem Keyed.find_of_mem (hl : l.Keyed codes) (hmem : k ∈ l.keys) :
    (∃ e ∈ l.hashHandle.elements, (l.entries e).k = k ∧ (l.find k).1 = (l.entries e).v) ∧
      (l.find k).2.keys = l.keys.filter (· ≠ k) ++ [k] ∧ (l.find k).2.Keyed codes := by
  have hk := hl.mem k hmem
  cases hfind : l.hashHandle.hashFind (lowInt k) with
  | none => exact absurd hmem ((hl.hashFind_eq_none_iff hcodes hk).mp hfind)
  | some e =>
      obtain ⟨he, hkey⟩ := hl.key_of_hashFind hcodes hk hfind
      have hvalue : (l.find k).1 = (l.entries e).v := by simp [Lru.find, hfind]
      have hkeys : (l.find k).2.keys = l.keys.filter (· ≠ k) ++ [k] := by
        have hrelink := map_relink (f := fun e => (l.entries e).k) hl.nodup he
        simp only [hkey] at hrelink
        simpa [Lru.find, hfind, keys, delete] using hrelink
      refine ⟨⟨e, he, hkey, hvalue⟩, hkeys, (hl.linked.find k).1, ?_, ?_⟩
      · rw [hkeys]
        have hperm : (l.keys.filter (· ≠ k) ++ [k]).Perm l.keys := by
          have herase : l.keys.filter (· ≠ k) = l.keys.erase k := by
            rw [hl.nodup.erase_eq_filter]
            exact List.filter_congr fun x _ => by
              by_cases hx : x = k <;> simp [hx]
          rw [herase]
          exact (List.perm_append_singleton _ _).trans (List.perm_cons_erase hmem).symm
        exact hperm.nodup_iff.mpr hl.nodup
      · rw [hkeys]
        intro x hx
        rcases List.mem_append.mp hx with hx | hx
        · exact hl.mem x (List.mem_of_mem_filter hx)
        · exact List.mem_singleton.mp hx ▸ hk

omit hcodes in
/-- An insertion of a key that is not linked. -/
theorem Keyed.insert (hl : l.Keyed codes) (hk : k ∈ codes) (hnot : k ∉ l.keys)
    (h : l.insert k v = some l') (hlinked : l'.Linked) : l'.Keyed codes := by
  have hkeys := keys_insert hl.linked h
  have hsub : ∀ x ∈ (if l.hashHandle.hashCount ≥ l.capacity then l.keys.tail else l.keys),
      x ∈ l.keys := by
    split_ifs
    · exact fun x hx => List.mem_of_mem_tail hx
    · exact fun x hx => hx
  have hnodup : (if l.hashHandle.hashCount ≥ l.capacity then l.keys.tail else l.keys).Nodup := by
    split_ifs
    · exact hl.nodup.tail
    · exact hl.nodup
  refine ⟨hlinked, ?_, fun x hx => ?_⟩
  · rw [hkeys, List.nodup_append]
    refine ⟨hnodup, List.nodup_singleton k, fun x hx y hy => ?_⟩
    rw [List.mem_singleton.mp hy]
    exact ne_of_mem_of_not_mem (hsub x hx) hnot
  · rw [hkeys] at hx
    rcases List.mem_append.mp hx with hx | hx
    · exact hl.mem x (hsub x hx)
    · exact List.mem_singleton.mp hx ▸ hk

end Keyed

end Lru

/-! ## Runs of calls -/

/-- A call of the two methods. -/
inductive LruCall
  | find (k : UInt64)
  | insert (k : UInt64) (v : ℤ)

/-- The key of the call. -/
def LruCall.key : LruCall → UInt64
  | .find k | .insert k _ => k

/-- An LRU between two calls. -/
structure LruRun where
  lru : Lru
  /-- The key of the last call, if that was a `find` without success. -/
  missed : Option UInt64

/-- A key is inserted only right after it has not been found, and never with `LRU_NOT_FOUND`. -/
def LruRun.step (s : LruRun) : LruCall → Option LruRun
  | .find k => some
      { lru := (s.lru.find k).2
        missed := if (s.lru.find k).1 = lruNotFound then some k else none }
  | .insert k v =>
      if s.missed = some k ∧ v ≠ lruNotFound then
        (s.lru.insert k v).map fun lru => { lru := lru, missed := none }
      else none

/-- All runs of such calls, on a new LRU. -/
def lruMachine (capacity : ℕ) : Machine LruRun LruCall where
  init s := s = { lru := .create capacity, missed := none }
  step := LruRun.step

/-- What the caller has seen. -/
structure LruHistory where
  /-- The keys inserted or found, the latest first. -/
  touches : List UInt64
  /-- The value last inserted for a key. -/
  inserted : UInt64 → Option ℤ

/-- The history after one more call. -/
def LruHistory.record (s : LruRun) : LruCall → LruHistory → LruHistory
  | .find k, h => if (s.lru.find k).1 = lruNotFound then h else ⟨k :: h.touches, h.inserted⟩
  | .insert k v, h => ⟨k :: h.touches, Function.update h.inserted k (some v)⟩

/-- The other keys inserted or found since `k` was. -/
def LruHistory.usedSince (h : LruHistory) (k : UInt64) : Finset UInt64 :=
  (h.touches.takeWhile (· ≠ k)).toFinset

/-- What `find(k)` is to return: the value last inserted, unless `capacity` other keys have been
used since. -/
def LruHistory.expected (h : LruHistory) (capacity : ℕ) (k : UInt64) : ℤ :=
  match h.inserted k with
  | some v => if (h.usedSince k).card < capacity then v else lruNotFound
  | none => lruNotFound

/-- The runs, with what the caller has seen. -/
def recordedLru (capacity : ℕ) : Machine (LruRun × LruHistory) LruCall :=
  (lruMachine capacity).withHistory { touches := [], inserted := fun _ => none }
    LruHistory.record

/-! ## The invariant -/

/-- The linked entries are those of the `capacity` keys used last, in the order of use, and
each holds the value last inserted for its key. -/
structure Ordered (codes : Set UInt64) (capacity : ℕ) (s : LruRun) (h : LruHistory) : Prop where
  keyed : s.lru.Keyed codes
  room : s.lru.capacity = capacity
  order : s.lru.keys = ((recency h.touches).take capacity).reverse
  inserted : ∀ k, k ∈ h.touches ↔ ∃ v, h.inserted k = some v
  value : ∀ e ∈ s.lru.hashHandle.elements,
    h.inserted (s.lru.entries e).k = some (s.lru.entries e).v ∧
      (s.lru.entries e).v ≠ lruNotFound
  missed : ∀ k, s.missed = some k → k ∉ s.lru.keys

section Ordered

variable {codes : Set UInt64} {capacity : ℕ} {s s' : LruRun} {h : LruHistory} {k : UInt64} {v : ℤ}

lemma ordered_start (codes : Set UInt64) (capacity : ℕ) :
    Ordered codes capacity { lru := .create capacity, missed := none }
      { touches := [], inserted := fun _ => none } := by
  refine ⟨Lru.keyed_create codes capacity, rfl, ?_, by simp, ?_, by simp⟩
  · simp [recency]
  · simp [Lru.create, UtHash.elements]

/-- A key is linked exactly if fewer than `capacity` others have been used since. -/
lemma Ordered.mem_keys_iff (ho : Ordered codes capacity s h) (k : UInt64) :
    k ∈ s.lru.keys ↔ k ∈ h.touches ∧ (h.usedSince k).card < capacity := by
  rw [ho.order, List.mem_reverse, mem_take_recency_iff, LruHistory.usedSince]

/-- The keys after an insertion that goes ahead. -/
lemma Ordered.keys_insert (ho : Ordered codes capacity s h) (hcap : 1 ≤ capacity)
    (hnot : k ∉ s.lru.keys) {l' : Lru} (hinsert : s.lru.insert k v = some l') :
    l'.keys = ((recency (k :: h.touches)).take capacity).reverse := by
  obtain ⟨c, rfl⟩ : ∃ c, capacity = c + 1 := ⟨capacity - 1, by omega⟩
  have hcount : s.lru.hashHandle.hashCount = ((recency h.touches).take (c + 1)).length := by
    rw [← Lru.length_keys, ho.order, List.length_reverse]
  rw [List.length_take] at hcount
  have hmiss : k ∉ (recency h.touches).take (c + 1) := by
    rw [ho.order, List.mem_reverse] at hnot
    exact hnot
  rw [Lru.keys_insert ho.keyed.linked hinsert, take_recency_of_notMem hmiss, List.reverse_cons,
    ho.room, ho.order]
  congr 1
  split_ifs with hfull
  · -- the first key is the one touched least recently
    rw [List.tail_reverse, List.dropLast_eq_take, List.take_take, List.length_take]
    congr 2
    omega
  · rw [List.take_of_length_le (by omega), List.take_of_length_le (by omega)]

variable (hcodes : Set.InjOn lowInt codes)

include hcodes

/-- The value of a linked key. -/
lemma Ordered.find_of_mem (ho : Ordered codes capacity s h) (hmem : k ∈ s.lru.keys) :
    h.inserted k = some (s.lru.find k).1 ∧ (s.lru.find k).1 ≠ lruNotFound := by
  obtain ⟨⟨e, he, hkey, hvalue⟩, -, -⟩ := ho.keyed.find_of_mem hcodes hmem
  obtain ⟨hinserted, hne⟩ := ho.value e he
  rw [hvalue]
  exact ⟨hkey ▸ hinserted, hne⟩

/-- A hit: the key has been used, and the entries stay. -/
lemma Ordered.hit (ho : Ordered codes capacity s h) (hmem : k ∈ s.lru.keys) :
    Ordered codes capacity ⟨(s.lru.find k).2, none⟩ ⟨k :: h.touches, h.inserted⟩ := by
  obtain ⟨hinserted, -⟩ := ho.find_of_mem hcodes hmem
  obtain ⟨-, hkeys, hkeyed⟩ := ho.keyed.find_of_mem hcodes hmem
  obtain ⟨-, hcapacity, hentries, hsub⟩ := ho.keyed.linked.find k
  refine ⟨hkeyed, hcapacity.trans ho.room, ?_, fun j => ?_, fun e he => ?_, by simp⟩
  · have hmem' := hmem
    rw [ho.order, List.mem_reverse] at hmem'
    rw [hkeys, take_recency_of_mem hmem', List.reverse_cons, ho.order, List.filter_reverse]
  · rw [List.mem_cons, ← ho.inserted j]
    refine ⟨fun hj => hj.elim (fun hjk => ?_) id, .inr⟩
    exact hjk ▸ (ho.inserted k).mpr ⟨_, hinserted⟩
  · obtain ⟨item, hitem, rfl⟩ := List.mem_map.mp he
    rw [hentries]
    exact ho.value _ (List.mem_map_of_mem (hsub item hitem))

omit hcodes in
/-- An insertion of a key that has just been missed. -/
lemma Ordered.store (ho : Ordered codes capacity s h) (hcap : 1 ≤ capacity) (hk : k ∈ codes)
    (hnot : k ∉ s.lru.keys) (hne : v ≠ lruNotFound) {l' : Lru}
    (hinsert : s.lru.insert k v = some l') (hl' : s.lru.Inserted l' k v) :
    Ordered codes capacity ⟨l', none⟩
      ⟨k :: h.touches, Function.update h.inserted k (some v)⟩ := by
  refine ⟨ho.keyed.insert hk hnot hinsert hl'.linked, hl'.capacity.trans ho.room,
    ho.keys_insert hcap hnot hinsert, fun j => ?_, fun e he => ?_, by simp⟩
  · by_cases hj : j = k
    · simp [hj]
    · simp [hj, ho.inserted j]
  · obtain ⟨item, hitem, rfl⟩ := List.mem_map.mp he
    rcases hl'.entry item hitem with hnew | ⟨hold, hsame⟩
    · simp [hnew, hne]
    · have helement : item.element ∈ s.lru.hashHandle.elements :=
        List.mem_map_of_mem (f := UtHandle.element) hold
      have hother : (s.lru.entries item.element).k ≠ k :=
        ne_of_mem_of_not_mem (List.mem_map_of_mem (f := fun e => (s.lru.entries e).k) helement)
          hnot
      simpa [hsame, hother] using ho.value _ helement

/-- **The invariant is kept by a call.** -/
lemma Ordered.step (hcap : 1 ≤ capacity) (ho : Ordered codes capacity s h) {call : LruCall}
    (hkey : call.key ∈ codes) (hstep : s.step call = some s') :
    Ordered codes capacity s' (h.record s call) := by
  cases call with
  | find k =>
      simp only [LruRun.step, Option.some.injEq] at hstep
      rw [← hstep, LruHistory.record]
      by_cases hmem : k ∈ s.lru.keys
      · have hne := (ho.find_of_mem hcodes hmem).2
        rw [if_neg hne, if_neg hne]
        exact ho.hit hcodes hmem
      · -- a miss changes nothing, and the key may be inserted next
        have hfind : s.lru.find k = (lruNotFound, s.lru) :=
          ho.keyed.find_of_notMem hcodes hkey hmem
        rw [hfind, if_pos rfl, if_pos rfl]
        refine ⟨ho.keyed, ho.room, ho.order, ho.inserted, ho.value, fun j hj => ?_⟩
        exact Option.some.inj hj ▸ hmem
  | insert k v =>
      simp only [LruRun.step] at hstep
      split_ifs at hstep with hallowed
      obtain ⟨hmissed, hne⟩ := hallowed
      obtain ⟨l', hinsert, hl'⟩ := ho.keyed.linked.exists_insert (ho.room ▸ hcap) k v
      rw [hinsert, Option.map_some, Option.some.injEq] at hstep
      rw [← hstep, LruHistory.record]
      exact ho.store hcap hkey (ho.missed k hmissed) hne hinsert hl'

end Ordered

/-! ## The law of a run -/

/-- **The least-recently-used law.**  After any run on an LRU with room for at least one entry,
`find(k)` returns the value last inserted for `k` unless `capacity` other keys have been
inserted or found since, and `LRU_NOT_FOUND` otherwise.  The linked entries are the first ones
of the array, each once, and an insertion that is allowed goes through. -/
theorem find_eq_expected {codes : Set UInt64} (hcodes : Set.InjOn lowInt codes) {capacity : ℕ}
    (hcap : 1 ≤ capacity) {calls : List LruCall} (hcalls : ∀ call ∈ calls, call.key ∈ codes)
    {p₀ : LruRun × LruHistory} (hinit : (recordedLru capacity).init p₀) {s : LruRun}
    {h : LruHistory} (hrun : (recordedLru capacity).exec p₀ calls = some (s, h)) :
    (∀ k ∈ codes, (s.lru.find k).1 = h.expected capacity k) ∧
      (s.lru.hashHandle.elements.Nodup ∧
        ∀ e, e ∈ s.lru.hashHandle.elements ↔ e < s.lru.hashHandle.hashCount) ∧
      s.lru.hashHandle.hashCount ≤ capacity ∧
      ∀ k v, s.missed = some k → v ≠ lruNotFound → (s.step (.insert k v)).isSome := by
  have ho : Ordered codes capacity s h := by
    refine Machine.exec_invariant (I := fun p => Ordered codes capacity p.1 p.2)
      (A := fun call => call.key ∈ codes) (fun p call p' hkey hp hstep => ?_) hcalls ?_ hrun
    · obtain ⟨hnext, hrecord⟩ := Machine.withHistory_step_eq_some.mp hstep
      rw [hrecord]
      exact hp.step hcodes hcap hkey hnext
    · obtain ⟨hlru, hhistory⟩ := hinit
      rw [hhistory, show p₀.1 = _ from hlru]
      exact ordered_start codes capacity
  refine ⟨fun k hk => ?_, ⟨ho.keyed.linked.nodup, fun e => ?_⟩, ?_, fun k v hmissed hne => ?_⟩
  · by_cases hmem : k ∈ s.lru.keys
    · have hfew := ((ho.mem_keys_iff k).mp hmem).2
      rw [LruHistory.expected, (ho.find_of_mem hcodes hmem).1]
      exact (if_pos hfew).symm
    · rw [ho.keyed.find_of_notMem hcodes hk hmem, LruHistory.expected]
      cases hinserted : h.inserted k with
      | none => rfl
      | some v =>
          have hmany : ¬ (h.usedSince k).card < capacity := fun hlt =>
            hmem ((ho.mem_keys_iff k).mpr ⟨(ho.inserted k).mpr ⟨v, hinserted⟩, hlt⟩)
          exact (if_neg hmany).symm
  · rw [ho.keyed.linked.perm_range.mem_iff, List.mem_range]
  · rw [← UtHash.length_elements]
    exact ho.keyed.linked.le_capacity.trans_eq ho.room
  · obtain ⟨l', hinsert, -⟩ := ho.keyed.linked.exists_insert (ho.room ▸ hcap) k v
    rw [LruRun.step, if_pos ⟨hmissed, hne⟩, hinsert]
    exact rfl

/-- Two entries and three keys: key 1 is found before key 3 is inserted, so key 2 goes. -/
def threeKeys : List LruCall :=
  [.find 1, .insert 1 10, .find 2, .insert 2 20, .find 1, .find 3, .insert 3 30]

lemma lowInt_injOn_threeKeys : Set.InjOn lowInt (({1, 2, 3} : Finset UInt64) : Set UInt64) :=
  Finset.card_image_iff.mp (by decide)

theorem find_eq_expected_threeKeys :
    ∃ s h, (recordedLru 2).exec (⟨.create 2, none⟩, ⟨[], fun _ => none⟩) threeKeys =
        some (s, h) ∧
      ((s.lru.find 1).1 = h.expected 2 1 ∧ (s.lru.find 2).1 = h.expected 2 2) ∧
      (h.expected 2 1 = 10 ∧ h.expected 2 2 = lruNotFound) := by
  have hrun : ((recordedLru 2).exec (⟨.create 2, none⟩, ⟨[], fun _ => none⟩) threeKeys).any
      (fun p => p.2.expected 2 1 = 10 ∧ p.2.expected 2 2 = lruNotFound) = true := by
    decide +kernel
  obtain ⟨⟨s, h⟩, hs, hexpected⟩ := (Option.any_eq_true _ _).mp hrun
  have hinit : (recordedLru 2).init (⟨.create 2, none⟩, ⟨[], fun _ => none⟩) := ⟨rfl, rfl⟩
  have hkeys : ∀ call ∈ threeKeys, call.key ∈ (({1, 2, 3} : Finset UInt64) : Set UInt64) := by
    simp [threeKeys, LruCall.key]
  have hlaw := (find_eq_expected lowInt_injOn_threeKeys (by decide) hkeys hinit hs).1
  exact ⟨s, h, hs, ⟨hlaw 1 (by simp), hlaw 2 (by simp)⟩, of_decide_eq_true hexpected⟩

end InfiTracing
