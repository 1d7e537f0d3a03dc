import Mathlib.Data.List.Nodup
import Mathlib.Data.Nat.Bitwise
import Mathlib.Logic.Function.Basic

/-!
# `uthash`, as the tracer uses it

The operations of the vendored `uthash.h` behind `HASH_ADD_INT`, `HASH_FIND_INT` and
`HASH_DEL`: a chained hash table whose elements are also linked in the order they were added.

The `_INT` macros hash and compare `sizeof(int)` bytes, whatever the type of the key field;
so the key of a handle here is a 32-bit word, the first four bytes of that field.  An element
is named by its pointer (`ι`).  The chains are kept in the order of the code, newest first and
reversed by an expansion, because that order decides which of two elements with one key is
found.

The proof field `mem_chain` ties the chains to the list of elements, and the four lemmas on
`items` and `hashFind` are all that users of the table need.
-/

namespace InfiTracing

/-! ## Hashing -/

/-- `HASH_JEN_MIX(a, b, c)`. -/
def hashJenMix (a b c : UInt32) : UInt32 × UInt32 × UInt32 :=
  let a := (a - b - c) ^^^ (c >>> 13)
  let b := (b - c - a) ^^^ (a <<< 8)
  let c := (c - a - b) ^^^ (b >>> 13)
  let a := (a - b - c) ^^^ (c >>> 12)
  let b := (b - c - a) ^^^ (a <<< 16)
  let c := (c - a - b) ^^^ (b >>> 5)
  let a := (a - b - c) ^^^ (c >>> 3)
  let b := (b - c - a) ^^^ (a <<< 10)
  let c := (c - a - b) ^^^ (b >>> 15)
  (a, b, c)

/-- `HASH_JEN(key, keylen, ...)` for `keylen = 4`, the key read as a little-endian word. -/
def hashJen (key : UInt32) : UInt32 :=
  (hashJenMix (0x9e3779b9 + key) 0x9e3779b9 (0xfeedbeef + 4)).2.2

/-- `HASH_TO_BKT(hashv, num_bkts, bkt)`. -/
def hashToBkt (hashv : UInt32) (numBkts : ℕ) : ℕ := hashv.toNat &&& (numBkts - 1)

lemma hashToBkt_lt (hashv : UInt32) {numBkts : ℕ} (h : 0 < numBkts) :
    hashToBkt hashv numBkts < numBkts := by
  have : hashv.toNat &&& (numBkts - 1) ≤ numBkts - 1 := Nat.and_le_right
  unfold hashToBkt
  omega

/-! ## The table -/

/-- A linked element and the bytes of its key. -/
structure UtHandle (ι : Type) where
  element : ι
  key : UInt32
  deriving DecidableEq

/-- `hashv` of the handle. -/
def UtHandle.hashv {ι : Type} (h : UtHandle ι) : UInt32 := hashJen h.key

/-- `UT_hash_bucket`; its `count` is the length of the chain. -/
structure UtBucket (ι : Type) where
  chain : List (UtHandle ι) := []
  expandMult : ℕ := 0

/-- `UT_hash_table`: the elements in the order they were added, and the buckets. -/
structure UtTable (ι : Type) where
  items : List (UtHandle ι)
  log2NumBuckets : ℕ
  buckets : ℕ → UtBucket ι
  ineffExpands : ℕ
  noexpand : Bool
  mem_chain : ∀ b h, h ∈ (buckets b).chain ↔
    h ∈ items ∧ hashToBkt h.hashv (2 ^ log2NumBuckets) = b

namespace UtTable

variable {ι : Type}

/-- `HASH_MAKE_TABLE`: `HASH_INITIAL_NUM_BUCKETS` empty buckets. -/
def make : UtTable ι where
  items := []
  log2NumBuckets := 5
  buckets _ := {}
  ineffExpands := 0
  noexpand := false
  mem_chain := by simp

/-! ### Expansion -/

/-- One handle moved by `HASH_EXPAND_BUCKETS`: the new buckets and `nonideal_items`. -/
def moveHandle (numBkts idealChainMaxlen : ℕ) (st : (ℕ → UtBucket ι) × ℕ) (h : UtHandle ι) :
    (ℕ → UtBucket ι) × ℕ :=
  let bkt := hashToBkt h.hashv numBkts
  let newbkt := st.1 bkt
  let count := newbkt.chain.length + 1
  if count > idealChainMaxlen then
    (Function.update st.1 bkt ⟨h :: newbkt.chain, count / idealChainMaxlen⟩, st.2 + 1)
  else
    (Function.update st.1 bkt ⟨h :: newbkt.chain, newbkt.expandMult⟩, st.2)

lemma moveHandle_chain (numBkts ideal : ℕ) (st : (ℕ → UtBucket ι) × ℕ) (h : UtHandle ι) (b : ℕ) :
    ((moveHandle numBkts ideal st h).1 b).chain =
      if hashToBkt h.hashv numBkts = b then h :: (st.1 b).chain else (st.1 b).chain := by
  unfold moveHandle
  by_cases hb : hashToBkt h.hashv numBkts = b
  · subst hb
    simp only [if_true]
    split <;> simp
  · simp only [hb, if_false]
    split <;> simp [Function.update_of_ne (Ne.symm hb)]

lemma mem_foldl_moveHandle (numBkts ideal : ℕ) (handles : List (UtHandle ι))
    (st : (ℕ → UtBucket ι) × ℕ) (b : ℕ) (x : UtHandle ι) :
    x ∈ ((handles.foldl (moveHandle numBkts ideal) st).1 b).chain ↔
      x ∈ (st.1 b).chain ∨ x ∈ handles ∧ hashToBkt x.hashv numBkts = b := by
  induction handles generalizing st with
  | nil => simp
  | cons h handles ih =>
      rw [List.foldl_cons, ih, moveHandle_chain]
      by_cases hb : hashToBkt h.hashv numBkts = b
      · simp only [hb, if_true, List.mem_cons]
        constructor
        · rintro ((rfl | hx) | ⟨hx, hxb⟩)
          · exact .inr ⟨.inl rfl, hb⟩
          · exact .inl hx
          · exact .inr ⟨.inr hx, hxb⟩
        · rintro (hx | ⟨rfl | hx, hxb⟩)
          · exact .inl (.inr hx)
          · exact .inl (.inl rfl)
          · exact .inr ⟨hx, hxb⟩
      · simp only [hb, if_false, List.mem_cons]
        constructor
        · rintro (hx | ⟨hx, hxb⟩)
          · exact .inl hx
          · exact .inr ⟨.inr hx, hxb⟩
        · rintro (hx | ⟨rfl | hx, hxb⟩)
          · exact .inl hx
          · exact absurd hxb hb
          · exact .inr ⟨hx, hxb⟩

/-- The handles in the order `HASH_EXPAND_BUCKETS` moves them: bucket by bucket, each chain
from its head. -/
def inBucketOrder (t : UtTable ι) : List (UtHandle ι) :=
  (List.range (2 ^ t.log2NumBuckets)).flatMap fun b => (t.buckets b).chain

lemma mem_inBucketOrder (t : UtTable ι) (h : UtHandle ι) :
    h ∈ t.inBucketOrder ↔ h ∈ t.items := by
  simp only [inBucketOrder, List.mem_flatMap, List.mem_range, t.mem_chain]
  constructor
  · rintro ⟨b, -, hitems, -⟩
    exact hitems
  · exact fun hitems => ⟨_, hashToBkt_lt _ (Nat.two_pow_pos _), hitems, rfl⟩

/-- `tbl->ideal_chain_maxlen`, computed for the doubled number of buckets. -/
def idealChainMaxlen (t : UtTable ι) : ℕ :=
  (t.items.length >>> (t.log2NumBuckets + 1)) +
    if t.items.length &&& (2 ^ (t.log2NumBuckets + 1) - 1) ≠ 0 then 1 else 0

/-- `HASH_EXPAND_BUCKETS(tbl)`. -/
def expand (t : UtTable ι) : UtTable ι :=
  let moved := t.inBucketOrder.foldl
    (moveHandle (2 ^ (t.log2NumBuckets + 1)) t.idealChainMaxlen) (fun _ => {}, 0)
  let ineffExpands := if moved.2 > t.items.length >>> 1 then t.ineffExpands + 1 else 0
  { items := t.items
    log2NumBuckets := t.log2NumBuckets + 1
    buckets := moved.1
    ineffExpands := ineffExpands
    noexpand := t.noexpand || decide (ineffExpands > 1)
    mem_chain := fun b h => by
      rw [mem_foldl_moveHandle, mem_inBucketOrder]
      simp }

/-! ### Adding and deleting -/

/-- The links made by `HASH_ADD_KEYPTR` and `HASH_ADD_TO_BKT`: last of the elements, first of
its chain. -/
def link (t : UtTable ι) (h : UtHandle ι) : UtTable ι :=
  let bkt := hashToBkt h.hashv (2 ^ t.log2NumBuckets)
  { t with
    items := t.items ++ [h]
    buckets := Function.update t.buckets bkt
      { t.buckets bkt with chain := h :: (t.buckets bkt).chain }
    mem_chain := fun b x => by
      by_cases hb : b = bkt
      · subst hb
        simp only [Function.update_self, List.mem_cons, t.mem_chain, List.mem_append,
          List.not_mem_nil, or_false]
        constructor
        · rintro (rfl | ⟨hx, hxb⟩)
          · exact ⟨.inr rfl, rfl⟩
          · exact ⟨.inl hx, hxb⟩
        · rintro ⟨hx | rfl, hxb⟩
          · exact .inr ⟨hx, hxb⟩
          · exact .inl rfl
      · rw [Function.update_of_ne hb, t.mem_chain, List.mem_append, List.mem_singleton]
        constructor
        · exact fun ⟨hx, hxb⟩ => ⟨.inl hx, hxb⟩
        · rintro ⟨hx | rfl, hxb⟩
          · exact ⟨hx, hxb⟩
          · exact absurd hxb.symm hb }

/-- The condition of `HASH_ADD_TO_BKT` for an expansion: the chain has reached its multiple
of `HASH_BKT_CAPACITY_THRESH`. -/
def overfull (t : UtTable ι) (bkt : ℕ) : Bool :=
  decide ((t.buckets bkt).chain.length ≥ ((t.buckets bkt).expandMult + 1) * 10) && !t.noexpand

/-- `HASH_ADD` on a table: link the element, and expand where its chain has become too
long. -/
def add (t : UtTable ι) (h : UtHandle ι) : UtTable ι :=
  if (t.link h).overfull (hashToBkt h.hashv (2 ^ t.log2NumBuckets)) then (t.link h).expand
  else t.link h

@[simp] lemma expand_items (t : UtTable ι) : t.expand.items = t.items := rfl

@[simp] lemma link_items (t : UtTable ι) (h : UtHandle ι) :
    (t.link h).items = t.items ++ [h] := rfl

@[simp] lemma add_items (t : UtTable ι) (h : UtHandle ι) : (t.add h).items = t.items ++ [h] := by
  rw [add]
  split
  · rw [expand_items, link_items]
  · rw [link_items]

variable [DecidableEq ι]

/-- The links of `element` taken out by `HASH_DELETE`. -/
def unlink (t : UtTable ι) (element : ι) : UtTable ι :=
  { t with
    items := t.items.filter (·.element ≠ element)
    buckets := fun b => { t.buckets b with
      chain := (t.buckets b).chain.filter (·.element ≠ element) }
    mem_chain := fun b h => by
      simp only [List.mem_filter, t.mem_chain]
      exact and_right_comm }

end UtTable

/-! ## The macros -/

/-- A hash head: `NULL`, or an element of a table. -/
abbrev UtHash (ι : Type) := Option (UtTable ι)

namespace UtHash

variable {ι : Type}

/-- The handles of the linked elements, in the order of `HASH_ITER`. -/
def items (head : UtHash ι) : List (UtHandle ι) := head.elim [] UtTable.items

/-- The linked elements, in the order of `HASH_ITER`. -/
def elements (head : UtHash ι) : List ι := head.items.map UtHandle.element

/-- `HASH_COUNT(head)`. -/
def hashCount (head : UtHash ι) : ℕ := head.items.length

/-- `HASH_ADD_INT(head, intfield, add)`; a head that is `NULL` gets a new table. -/
def hashAdd (head : UtHash ι) (element : ι) (key : UInt32) : UtHash ι :=
  some ((head.getD .make).add ⟨element, key⟩)

/-- `HASH_FIND_INT(head, findint, out)`: the first element of the chain with the key. -/
def hashFind (head : UtHash ι) (key : UInt32) : Option ι :=
  head.bind fun t =>
    ((t.buckets (hashToBkt (hashJen key) (2 ^ t.log2NumBuckets))).chain.find?
      (·.key = key)).map UtHandle.element

/-- `HASH_DEL(head, delptr)`; with its last element the table is freed. -/
def hashDelete [DecidableEq ι] (head : UtHash ι) (element : ι) : UtHash ι :=
  head.bind fun t =>
    if (t.unlink element).items = [] then none else some (t.unlink element)

@[simp] lemma items_none : items (none : UtHash ι) = [] := rfl

@[simp] lemma items_some (t : UtTable ι) : items (some t) = t.items := rfl

@[simp] lemma items_hashAdd (head : UtHash ι) (element : ι) (key : UInt32) :
    (head.hashAdd element key).items = head.items ++ [⟨element, key⟩] := by
  have hold : (head.getD .make).items = head.items := by cases head <;> rfl
  rw [hashAdd, items_some, UtTable.add_items, hold]

@[simp] lemma items_hashDelete [DecidableEq ι] (head : UtHash ι) (element : ι) :
    (head.hashDelete element).items = head.items.filter (·.element ≠ element) := by
  cases head with
  | none => rfl
  | some t =>
      simp only [hashDelete, Option.bind_some]
      split
      · next h => exact h.symm
      · rfl

lemma length_elements (head : UtHash ι) : head.elements.length = head.hashCount :=
  List.length_map _

@[simp] lemma elements_hashAdd (head : UtHash ι) (element : ι) (key : UInt32) :
    (head.hashAdd element key).elements = head.elements ++ [element] := by
  simp [elements]

@[simp] lemma elements_hashDelete [DecidableEq ι] (head : UtHash ι) (element : ι) :
    (head.hashDelete element).elements = head.elements.filter (· ≠ element) := by
  rw [elements, items_hashDelete, elements, List.filter_map]
  rfl

/-- Unlinking a linked element and linking it last keeps the elements. -/
lemma elements_relink [DecidableEq ι] {head : UtHash ι} (hnodup : head.elements.Nodup)
    {element : ι} (hmem : element ∈ head.elements) (key : UInt32) :
    ((head.hashDelete element).hashAdd element key).elements.Perm head.elements := by
  have herase : head.elements.filter (· ≠ element) = head.elements.erase element := by
    rw [hnodup.erase_eq_filter]
    exact List.filter_congr fun x _ => by
      by_cases hx : x = element <;> simp [hx]
  rw [elements_hashAdd, elements_hashDelete, herase]
  exact (List.perm_append_singleton _ _).trans (List.perm_cons_erase hmem).symm

lemma mem_items_of_hashFind {head : UtHash ι} {key : UInt32} {element : ι}
    (h : head.hashFind key = some element) : ⟨element, key⟩ ∈ head.items := by
  cases head with
  | none => cases h
  | some t =>
      obtain ⟨x, hx, rfl⟩ := Option.map_eq_some_iff.mp h
      obtain rfl : x.key = key := by simpa using List.find?_some hx
      exact ((t.mem_chain _ x).mp (List.mem_of_find?_eq_some hx)).1

lemma hashFind_eq_none_iff {head : UtHash ι} {key : UInt32} :
    head.hashFind key = none ↔ ∀ h ∈ head.items, h.key ≠ key := by
  cases head with
  | none => exact ⟨fun _ h hh => by simp at hh, fun _ => rfl⟩
  | some t =>
      simp only [hashFind, Option.bind_some, Option.map_eq_none_iff, List.find?_eq_none,
        decide_eq_true_eq, t.mem_chain]
      constructor
      · rintro h x hx rfl
        exact h x ⟨hx, rfl⟩ rfl
      · exact fun h x hx => h x hx.1

end UtHash

end InfiTracing
