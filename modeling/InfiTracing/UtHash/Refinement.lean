import Mathlib.Data.List.Perm.Subperm
import InfiTracing.UtHash.Pointers

/-!
# The pointers of `uthash` and its lists

`Represents` says that what is in memory is a table as `UtHash.lean` has it.  Its parts are about
different pointers: `AppOrder` about those in the order of adding, `Bucketed` about those in the
buckets, `Owned` about those to the table.

Each macro is one law: `Bucketed.expand`, `represents_hashAdd` and `represents_hashDelete`.  The
argument for an expansion is `Moved`, over the handles moved so far: they are in their new chains,
and all the others have the links they had, so that the rest of the old chains can still be
followed.
-/

namespace InfiTracing

open Framework

variable {ι : Type}

/-- The elements of handles. -/
def elementsOf (l : List (UtHandle ι)) : List ι := l.map UtHandle.element

@[simp] lemma elementsOf_nil : elementsOf ([] : List (UtHandle ι)) = [] := rfl

@[simp] lemma elementsOf_cons (h : UtHandle ι) (l : List (UtHandle ι)) :
    elementsOf (h :: l) = h.element :: elementsOf l := rfl

@[simp] lemma elementsOf_append (l l' : List (UtHandle ι)) :
    elementsOf (l ++ l') = elementsOf l ++ elementsOf l' := List.map_append

@[simp] lemma length_elementsOf (l : List (UtHandle ι)) : (elementsOf l).length = l.length :=
  List.length_map _

lemma mem_elementsOf {l : List (UtHandle ι)} {h : UtHandle ι} (hh : h ∈ l) :
    h.element ∈ elementsOf l :=
  List.mem_map_of_mem hh

/-! ## The buckets -/

/-- The cell and the links are those of the bucket. -/
structure ChainOf (k : Links ι) (cell : BucketCell ι) (b : UtBucket ι) : Prop where
  links : k.Segment none (elementsOf b.chain) none
  head : cell.hhHead = (elementsOf b.chain).head?
  count : cell.count = b.chain.length
  expandMult : cell.expandMult = b.expandMult
  nodup : (elementsOf b.chain).Nodup

/-- The buckets of a table in memory are those of the table. -/
structure Bucketed (k : Links ι) (c : TableCell ι) (t : UtTable ι) : Prop where
  chain : ∀ b, ChainOf k (c.buckets b) (t.buckets b)
  numBuckets : c.numBuckets = 2 ^ t.log2NumBuckets
  log2NumBuckets : c.log2NumBuckets = t.log2NumBuckets
  ineffExpands : c.ineffExpands = t.ineffExpands
  noexpand : c.noexpand = t.noexpand

lemma ChainOf.congr {k k' : Links ι} {cell : BucketCell ι} {b : UtBucket ι}
    (h : ChainOf k cell b)
    (hframe : ∀ a ∈ elementsOf b.chain, k'.next a = k.next a ∧ k'.prev a = k.prev a) :
    ChainOf k' cell b :=
  { h with links := h.links.congr (fun a ha => (hframe a ha).1) fun a ha => (hframe a ha).2 }

lemma chainOf_empty (k : Links ι) : ChainOf k {} {} :=
  ⟨trivial, rfl, rfl, rfl, List.nodup_nil⟩

variable [DecidableEq ι]

/-- Adding an element to a bucket. -/
lemma ChainOf.cons {k : Links ι} {cell : BucketCell ι} {b : UtBucket ι} (hc : ChainOf k cell b)
    {h : UtHandle ι} (hnew : h.element ∉ elementsOf b.chain) (mult : ℕ) :
    ChainOf (k.pushFront cell.hhHead h.element)
      { hhHead := some h.element, count := cell.count + 1, expandMult := mult }
      { chain := h :: b.chain, expandMult := mult } := by
  have hnodup : (elementsOf (h :: b.chain)).Nodup := List.nodup_cons.mpr ⟨hnew, hc.nodup⟩
  refine ⟨?_, rfl, ?_, rfl, hnodup⟩
  · rw [hc.head]
    exact hc.links.pushFront hnodup
  · rw [hc.count, List.length_cons]

/-- Another bucket is as it was. -/
lemma ChainOf.pushFront {k : Links ι} {cell cell' : BucketCell ι} {b b' : UtBucket ι}
    (hc : ChainOf k cell b) (hc' : ChainOf k cell' b') {a : ι} (hnew : a ∉ elementsOf b'.chain)
    (hdisjoint : ∀ x ∈ elementsOf b.chain, x ∉ elementsOf b'.chain) :
    ChainOf (k.pushFront cell.hhHead a) cell' b' := by
  refine hc'.congr fun x hx => Links.pushFront_of_ne ?_ ?_
  · rintro rfl
    exact hnew hx
  · rw [hc.head]
    exact fun heq => hdisjoint x (List.mem_of_mem_head? heq) hx

/-! ## Expansion -/

/-- Two buckets of lists never share an element. -/
def Apart (lists : ℕ → UtBucket ι) : Prop :=
  ∀ b b', b ≠ b' → ∀ a ∈ elementsOf (lists b).chain, a ∉ elementsOf (lists b').chain

/-- A handle is moved in memory as in the lists. -/
lemma chainOf_moveCell {hashv : ι → UInt32} {numBkts ideal : ℕ} {st : Moving ι}
    {lists : (ℕ → UtBucket ι) × ℕ} {h : UtHandle ι}
    (hchain : ∀ b, ChainOf st.links (st.newBuckets b) (lists.1 b)) (hdisjoint : Apart lists.1)
    (hnew : ∀ b, h.element ∉ elementsOf (lists.1 b).chain) (hhash : hashv h.element = h.hashv)
    (b : ℕ) :
    ChainOf (moveCell hashv numBkts ideal h.element st).links
      ((moveCell hashv numBkts ideal h.element st).newBuckets b)
      ((UtTable.moveHandle numBkts ideal lists h).1 b) := by
  have hin := hchain (hashToBkt h.hashv numBkts)
  have hcount := hin.count
  have hmult := hin.expandMult
  by_cases hb : b = hashToBkt h.hashv numBkts
  · subst hb
    have hbucket := hin.cons (hnew _)
    by_cases hideal : (lists.1 (hashToBkt h.hashv numBkts)).chain.length + 1 > ideal
    · simpa [moveCell, UtTable.moveHandle, hhash, hcount, hideal] using hbucket _
    · simpa [moveCell, UtTable.moveHandle, hhash, hcount, hmult, hideal] using hbucket _
  · have hother := hin.pushFront (hchain b) (hnew b) (hdisjoint _ _ (Ne.symm hb))
    by_cases hideal : (lists.1 (hashToBkt h.hashv numBkts)).chain.length + 1 > ideal
    · simpa [moveCell, UtTable.moveHandle, hhash, hideal, hb] using hother
    · simpa [moveCell, UtTable.moveHandle, hhash, hideal, hb] using hother

/-- The handles in `moved` have been moved; the others still have the links `k`. -/
structure Moved (k : Links ι) (numBkts ideal : ℕ) (moved : List (UtHandle ι)) (st : Moving ι) :
    Prop where
  chain : ∀ b, ChainOf st.links (st.newBuckets b)
    ((moved.foldl (UtTable.moveHandle numBkts ideal) (fun _ => {}, 0)).1 b)
  nonidealItems : st.nonidealItems =
    (moved.foldl (UtTable.moveHandle numBkts ideal) (fun _ => {}, 0)).2
  frame : ∀ a ∉ elementsOf moved, st.links.next a = k.next a ∧ st.links.prev a = k.prev a

section Moved

variable {k : Links ι} {hashv : ι → UInt32} {numBkts ideal : ℕ} {moved : List (UtHandle ι)}
  {st : Moving ι}

omit [DecidableEq ι] in
lemma mem_moved {b : ℕ} {a : ι} (ha : a ∈ elementsOf
    ((moved.foldl (UtTable.moveHandle numBkts ideal) (fun _ => {}, 0)).1 b).chain) :
    ∃ h ∈ moved, h.element = a ∧ hashToBkt h.hashv numBkts = b := by
  obtain ⟨h, hh, rfl⟩ := List.mem_map.mp ha
  have hmem := (UtTable.mem_foldl_moveHandle numBkts ideal moved (fun _ => {}, 0) b h).mp hh
  obtain ⟨hmoved, hb⟩ : h ∈ moved ∧ hashToBkt h.hashv numBkts = b := by simpa using hmem
  exact ⟨h, hmoved, rfl, hb⟩

omit [DecidableEq ι] in
lemma notMem_moved {b : ℕ} {a : ι} (ha : a ∉ elementsOf moved) : a ∉ elementsOf
    ((moved.foldl (UtTable.moveHandle numBkts ideal) (fun _ => {}, 0)).1 b).chain := by
  intro hmem
  obtain ⟨h, hh, rfl, -⟩ := mem_moved hmem
  exact ha (mem_elementsOf hh)

omit [DecidableEq ι] in
lemma apart_moved (hnodup : (elementsOf moved).Nodup) :
    Apart (moved.foldl (UtTable.moveHandle numBkts ideal) (fun _ => {}, 0)).1 := by
  intro b b' hne a ha ha'
  obtain ⟨h, hh, rfl, hb⟩ := mem_moved ha
  obtain ⟨h', hh', heq, hb'⟩ := mem_moved ha'
  obtain rfl := List.inj_on_of_nodup_map hnodup hh' hh heq
  exact hne (hb.symm.trans hb')

/-- One handle is moved. -/
lemma Moved.step (hm : Moved k numBkts ideal moved st) (hnodup : (elementsOf moved).Nodup)
    {h : UtHandle ι} (hnew : h.element ∉ elementsOf moved) (hhash : hashv h.element = h.hashv) :
    Moved k numBkts ideal (moved ++ [h]) (moveCell hashv numBkts ideal h.element st) := by
  have hin := hm.chain (hashToBkt h.hashv numBkts)
  refine ⟨?_, ?_, fun a ha => ?_⟩
  · rw [List.foldl_append, List.foldl_cons, List.foldl_nil]
    exact chainOf_moveCell hm.chain (apart_moved hnodup) (fun b => notMem_moved hnew) hhash
  · rw [List.foldl_append, List.foldl_cons, List.foldl_nil]
    simp only [moveCell, UtTable.moveHandle, hhash, hin.count, hm.nonidealItems,
      decide_eq_true_eq]
    split_ifs <;> rfl
  · rw [elementsOf_append, List.mem_append, not_or] at ha
    have hne : a ≠ h.element := by simpa using ha.2
    have hhead : (st.newBuckets (hashToBkt (hashv h.element) numBkts)).hhHead ≠ some a := by
      rw [hhash, hin.head]
      exact fun heq => notMem_moved ha.1 (List.mem_of_mem_head? heq)
    obtain ⟨hnext, hprev⟩ := Links.pushFront_of_ne (k := st.links) hne hhead
    exact ⟨hnext.trans (hm.frame a ha.1).1, hprev.trans (hm.frame a ha.1).2⟩

/-- The rest of a chain is moved. -/
lemma Moved.moveChain {rest : List (UtHandle ι)} {p : Option ι} {fuel : ℕ}
    (hm : Moved k numBkts ideal moved st) (hrest : k.Segment p (elementsOf rest) none)
    (hnodup : (elementsOf (moved ++ rest)).Nodup) (hhash : ∀ h ∈ rest, hashv h.element = h.hashv)
    (hfuel : rest.length ≤ fuel) :
    ∃ st', moveChain hashv numBkts ideal fuel (elementsOf rest).head? st = some st' ∧
      Moved k numBkts ideal (moved ++ rest) st' := by
  induction rest generalizing p moved st fuel with
  | nil =>
      rw [List.append_nil]
      cases fuel <;> exact ⟨st, rfl, hm⟩
  | cons h rest ih =>
      cases fuel with
      | zero => cases hfuel
      | succ fuel =>
          have hsplit : moved ++ h :: rest = (moved ++ [h]) ++ rest := by simp
          rw [hsplit] at hnodup ⊢
          have hfirst : (elementsOf moved ++ [h.element]).Nodup := by
            have hboth := hnodup
            rw [elementsOf_append] at hboth
            simpa using (List.nodup_append.mp hboth).1
          obtain ⟨hmoved, -, hdisjoint⟩ := List.nodup_append.mp hfirst
          have hnew : h.element ∉ elementsOf moved := fun hmem =>
            hdisjoint _ hmem _ List.mem_cons_self rfl
          have hnext : st.links.next h.element = (elementsOf rest).head? := by
            rw [(hm.frame _ hnew).1]
            exact hrest.next_head
          simp only [elementsOf_cons, List.head?_cons, InfiTracing.moveChain, hnext]
          exact ih (hm.step hmoved hnew (hhash h List.mem_cons_self)) hrest.2.2 hnodup
            (fun x hx => hhash x (List.mem_cons_of_mem h hx)) (Nat.le_of_succ_le_succ hfuel)

end Moved

/-! ### The whole expansion -/

section Expand

variable {k : Links ι} {hashv : ι → UInt32} {c : TableCell ι} {t : UtTable ι}

omit [DecidableEq ι] in
lemma mem_items_of_chain {b : ℕ} {a : ι} (ha : a ∈ elementsOf (t.buckets b).chain) :
    ∃ h ∈ t.items, h.element = a ∧ hashToBkt h.hashv (2 ^ t.log2NumBuckets) = b := by
  obtain ⟨h, hh, rfl⟩ := List.mem_map.mp ha
  obtain ⟨hitems, hb⟩ := (t.mem_chain b h).mp hh
  exact ⟨h, hitems, rfl, hb⟩

omit [DecidableEq ι] in
lemma apart_buckets (hnodup : (elementsOf t.items).Nodup) : Apart t.buckets := by
  intro b b' hne a ha ha'
  obtain ⟨h, hh, rfl, hb⟩ := mem_items_of_chain ha
  obtain ⟨h', hh', heq, hb'⟩ := mem_items_of_chain ha'
  obtain rfl := List.inj_on_of_nodup_map hnodup hh' hh heq
  exact hne (hb.symm.trans hb')

omit [DecidableEq ι] in
/-- No chain is longer than the table. -/
lemma Bucketed.length_le (hk : Bucketed k c t) (b : ℕ) :
    (t.buckets b).chain.length ≤ t.items.length := by
  have hsub : elementsOf (t.buckets b).chain ⊆ elementsOf t.items := fun a ha => by
    obtain ⟨h, hh, rfl, -⟩ := mem_items_of_chain ha
    exact mem_elementsOf hh
  simpa using ((hk.chain b).nodup.subperm hsub).length_le

omit [DecidableEq ι] in
lemma Bucketed.nodup_chains (hk : Bucketed k c t) (hnodup : (elementsOf t.items).Nodup) (n : ℕ) :
    (elementsOf ((List.range n).flatMap fun b => (t.buckets b).chain)).Nodup := by
  rw [elementsOf, List.map_flatMap, List.nodup_flatMap]
  refine ⟨fun b _ => (hk.chain b).nodup, List.nodup_range.imp fun {b b'} hne a ha ha' => ?_⟩
  exact apart_buckets hnodup b b' hne a ha ha'

/-- The buckets below `n` are moved. -/
lemma Bucketed.moved (hk : Bucketed k c t) (hnodup : (elementsOf t.items).Nodup)
    (hitems : c.numItems = t.items.length) (hhash : ∀ h ∈ t.items, hashv h.element = h.hashv)
    (numBkts ideal n : ℕ) : ∃ st,
      (List.range n).foldlM (fun st i =>
        moveChain hashv numBkts ideal c.numItems (c.buckets i).hhHead st) ⟨k, fun _ => {}, 0⟩ =
          some st ∧
      Moved k numBkts ideal ((List.range n).flatMap fun b => (t.buckets b).chain) st := by
  induction n with
  | zero => exact ⟨_, rfl, fun b => chainOf_empty k, rfl, fun a _ => ⟨rfl, rfl⟩⟩
  | succ n ih =>
      obtain ⟨st, hst, hm⟩ := ih
      have hall := hk.nodup_chains hnodup (n + 1)
      have hlast : (List.range (n + 1)).flatMap (fun b => (t.buckets b).chain) =
          (List.range n).flatMap (fun b => (t.buckets b).chain) ++ (t.buckets n).chain := by
        rw [List.range_succ, List.flatMap_append, List.flatMap_singleton]
      rw [hlast] at hall ⊢
      obtain ⟨st', hst', hm'⟩ := hm.moveChain (hk.chain n).links hall
        (fun h hh => hhash h ((t.mem_chain n h).mp hh).1) (hitems ▸ hk.length_le n)
      refine ⟨st', ?_, hm'⟩
      rw [List.range_succ, List.foldlM_append, hst]
      simpa [(hk.chain n).head] using hst'

/-- **`HASH_EXPAND_BUCKETS`.** -/
lemma Bucketed.expand (hk : Bucketed k c t) (hnodup : (elementsOf t.items).Nodup)
    (hitems : c.numItems = t.items.length) (hhash : ∀ h ∈ t.items, hashv h.element = h.hashv) :
    ∃ k' c', c.expandBuckets k hashv = some (k', c') ∧ Bucketed k' c' t.expand ∧
      c'.numItems = c.numItems ∧ c'.tail = c.tail := by
  obtain ⟨st, hst, hm⟩ := hk.moved hnodup hitems hhash (2 ^ (t.log2NumBuckets + 1))
    t.idealChainMaxlen (2 ^ t.log2NumBuckets)
  have hdouble : c.numBuckets * 2 = 2 ^ (t.log2NumBuckets + 1) := by rw [hk.numBuckets, pow_succ]
  have hrun : c.expandBuckets k hashv = some (st.links, { c with
      buckets := st.newBuckets
      numBuckets := 2 ^ (t.log2NumBuckets + 1)
      log2NumBuckets := c.log2NumBuckets + 1
      ineffExpands := t.expand.ineffExpands
      noexpand := t.expand.noexpand }) := by
    rw [TableCell.expandBuckets, hdouble, hk.numBuckets, hk.log2NumBuckets, hitems]
    rw [hitems] at hst
    simp only [UtTable.idealChainMaxlen] at hst
    rw [hst]
    simp only [Option.bind_eq_bind, Option.bind_some, hm.nonidealItems, hk.ineffExpands,
      hk.noexpand]
    rfl
  refine ⟨_, _, hrun, ⟨hm.chain, rfl, ?_, rfl, rfl⟩, rfl, rfl⟩
  exact congrArg (· + 1) hk.log2NumBuckets

end Expand

/-! ## The table -/

/-- The handles are linked in the order of adding, from the head to the tail. -/
structure AppOrder (m : UtMemory ι) (c : TableCell ι) (items : List (UtHandle ι)) : Prop where
  nodup : (elementsOf items).Nodup
  order : m.app.Segment none (elementsOf items) none
  head : m.head = (elementsOf items).head?
  tail : (elementsOf items).getLast? = some c.tail
  numItems : c.numItems = items.length
  key : ∀ h ∈ items, m.key h.element = h.key
  hashv : ∀ h ∈ items, m.hashv h.element = h.hashv

/-- The table at `id` is the only one, and every element of `items` points to it. -/
structure Owned (m : UtMemory ι) (id : ℕ) (c : TableCell ι) (items : List (UtHandle ι)) :
    Prop where
  table : m.tables id = some c
  only : ∀ id', id' ≠ id → m.tables id' = none
  tbl : ∀ h ∈ items, m.tbl h.element = id

/-- What is in memory is the table, or no table. -/
def UtMemory.Represents (m : UtMemory ι) : UtHash ι → Prop
  | none => m.head = none ∧ ∀ id, m.tables id = none
  | some t => ∃ id c, Owned m id c t.items ∧ AppOrder m c t.items ∧ Bucketed m.bkt c t

section Table

variable {m : UtMemory ι} {id : ℕ} {c : TableCell ι} {items : List (UtHandle ι)}

omit [DecidableEq ι] in
lemma AppOrder.congr (ho : AppOrder m c items) {m' : UtMemory ι} {c' : TableCell ι}
    (hhead : m'.head = m.head) (happ : m'.app = m.app) (hkey : m'.key = m.key)
    (hhashv : m'.hashv = m.hashv) (hitems : c'.numItems = c.numItems) (htail : c'.tail = c.tail) :
    AppOrder m' c' items := by
  refine ⟨ho.nodup, ?_, ?_, ?_, ?_, ?_, ?_⟩
  · rw [happ]
    exact ho.order
  · rw [hhead]
    exact ho.head
  · rw [htail]
    exact ho.tail
  · rw [hitems]
    exact ho.numItems
  · rw [hkey]
    exact ho.key
  · rw [hhashv]
    exact ho.hashv

omit [DecidableEq ι] in
lemma AppOrder.exists_head (ho : AppOrder m c items) : ∃ h ∈ items, m.head = some h.element := by
  cases items with
  | nil => cases ho.tail
  | cons h items => exact ⟨h, List.mem_cons_self, ho.head⟩

omit [DecidableEq ι] in
lemma Owned.table_eq (hw : Owned m id c items) (hfirst : ∃ h ∈ items, m.head = some h.element) :
    m.table = some c := by
  obtain ⟨h, hh, hhead⟩ := hfirst
  rw [UtMemory.table, hhead, Option.bind_some, hw.tbl h hh, hw.table]

omit [DecidableEq ι] in
/-- The table is written to. -/
lemma Owned.setTable (hw : Owned m id c items) {m' : UtMemory ι} {c' : TableCell ι}
    (hfirst : ∃ h ∈ items, m'.head = some h.element) (htbl : m'.tbl = m.tbl) :
    m'.setTable c' = some { m' with tables := Function.update m'.tables id (some c') } := by
  obtain ⟨h, hh, hhead⟩ := hfirst
  rw [UtMemory.setTable, htbl, hhead, Option.map_some, hw.tbl h hh]

omit [DecidableEq ι] in
/-- The table that is written to is the only one still. -/
lemma Owned.update (hw : Owned m id c items) {m' : UtMemory ι} {c' : TableCell ι}
    (htables : m'.tables = Function.update m.tables id (some c')) {items' : List (UtHandle ι)}
    (htbl : ∀ h ∈ items', m'.tbl h.element = id) : Owned m' id c' items' := by
  refine ⟨?_, fun id' hne => ?_, htbl⟩
  · rw [htables, Function.update_self]
  · rw [htables, Function.update_of_ne hne, hw.only id' hne]

end Table

/-! ### Adding -/

section Add

variable {m : UtMemory ι} {id : ℕ} {c : TableCell ι} {t : UtTable ι} {a : ι} {key : UInt32}

/-- Linking a handle in its bucket. -/
lemma Bucketed.link {k : Links ι} (hk : Bucketed k c t) (hnodup : (elementsOf t.items).Nodup)
    {h : UtHandle ι} (hnew : h.element ∉ elementsOf t.items) :
    let bkt := hashToBkt h.hashv c.numBuckets
    Bucketed (k.pushFront (c.buckets bkt).hhHead h.element)
      { c with buckets := Function.update c.buckets bkt
                { c.buckets bkt with
                  hhHead := some h.element
                  count := (c.buckets bkt).count + 1 } } (t.link h) := by
  have hout : ∀ b, h.element ∉ elementsOf (t.buckets b).chain := fun b hmem => by
    obtain ⟨x, hx, heq, -⟩ := mem_items_of_chain hmem
    exact hnew (heq ▸ mem_elementsOf hx)
  refine ⟨fun b => ?_, hk.numBuckets, hk.log2NumBuckets, hk.ineffExpands, hk.noexpand⟩
  rw [hk.numBuckets]
  have hin := hk.chain (hashToBkt h.hashv (2 ^ t.log2NumBuckets))
  by_cases hb : b = hashToBkt h.hashv (2 ^ t.log2NumBuckets)
  · subst hb
    have hbucket := hin.cons (hout _)
      (t.buckets (hashToBkt h.hashv (2 ^ t.log2NumBuckets))).expandMult
    simpa [UtTable.link, hin.expandMult] using hbucket
  · have hother := hin.pushFront (hk.chain b) (hout b) (apart_buckets hnodup _ _ (Ne.symm hb))
    simpa [UtTable.link, hb] using hother

/-- **`HASH_ADD_TO_BKT`**, for the element linked last. -/
lemma represents_addToBkt {h : UtHandle ι} (hw : Owned m id c (t.items ++ [h]))
    (ho : AppOrder m c (t.items ++ [h])) (hk : Bucketed m.bkt c t) :
    ∃ m', m.addToBkt (hashToBkt h.hashv c.numBuckets) h.element = some m' ∧
      m'.Represents (some (t.add h)) := by
  obtain ⟨hnodup, -, hdisjoint⟩ : (elementsOf t.items).Nodup ∧ _ ∧ _ := by
    simpa only [elementsOf_append, List.nodup_append] using ho.nodup
  have hnew : h.element ∉ elementsOf t.items := fun hmem =>
    hdisjoint _ hmem _ (mem_elementsOf List.mem_cons_self) rfl
  have hlink := hk.link hnodup hnew
  -- the condition for an expansion is the same on the chain as on its count
  have hbucket := hk.chain (hashToBkt h.hashv c.numBuckets)
  have hoverfull : (t.link h).overfull (hashToBkt h.hashv (2 ^ t.log2NumBuckets)) = true ↔
      (c.buckets (hashToBkt h.hashv c.numBuckets)).count + 1 ≥
        ((c.buckets (hashToBkt h.hashv c.numBuckets)).expandMult + 1) * 10 ∧
          c.noexpand = false := by
    rw [hbucket.count, hbucket.expandMult, hk.noexpand, hk.numBuckets]
    simp [UtTable.overfull, UtTable.link]
  unfold UtMemory.addToBkt
  simp only [hw.table_eq ho.exists_head, Option.bind_eq_bind, Option.bind_some]
  by_cases hover : (t.link h).overfull (hashToBkt h.hashv (2 ^ t.log2NumBuckets)) = true
  · rw [if_pos (hoverfull.mp hover), UtTable.add, if_pos hover]
    obtain ⟨links, c', hrun, hk', hitems, htail⟩ := hlink.expand ho.nodup ho.numItems ho.hashv
    simp only [hrun, Option.bind_some]
    exact ⟨_, hw.setTable ho.exists_head rfl, id, c', hw.update rfl hw.tbl,
      ho.congr rfl rfl rfl rfl hitems htail, hk'⟩
  · rw [if_neg (hoverfull.not.mp hover), UtTable.add, if_neg hover]
    refine ⟨_, hw.setTable ho.exists_head rfl, id, _, hw.update rfl hw.tbl, ?_, hlink⟩
    exact ho.congr rfl rfl rfl rfl rfl rfl

/-- `num_items`, `tbl` and `hashv`, which `HASH_ADD_KEYPTR` sets between the two links. -/
def UtMemory.count (m : UtMemory ι) (id : ℕ) (c : TableCell ι) (a : ι) (key : UInt32) :
    UtMemory ι :=
  { m with
    tables := Function.update m.tables id (some { c with numItems := c.numItems + 1 })
    tbl := Function.update m.tbl a id
    hashv := Function.update m.hashv a (hashJen key) }

/-- The element becomes the last one of a table. -/
lemma AppOrder.concat {items : List (UtHandle ι)} (ho : AppOrder m c items)
    (hnew : a ∉ elementsOf items) {m' : UtMemory ι} {c' : TableCell ι} (hhead : m'.head = m.head)
    (happ : m'.app = m.app.pushBack c.tail a) (hkey : m'.key = Function.update m.key a key)
    (hhashv : m'.hashv = Function.update m.hashv a (hashJen key))
    (hitems : c'.numItems = c.numItems + 1) (htail : c'.tail = a) :
    AppOrder m' c' (items ++ [⟨a, key⟩]) := by
  obtain ⟨before, hsplit⟩ := List.getLast?_eq_some_iff.mp ho.tail
  have hnodup : (elementsOf items ++ [a]).Nodup := by
    refine List.nodup_append.mpr ⟨ho.nodup, List.nodup_singleton a, fun x hx y hy heq => ?_⟩
    obtain rfl := List.mem_singleton.mp hy
    exact hnew (heq ▸ hx)
  have hne : ∀ h ∈ items, h.element ≠ a := fun h hh heq => hnew (heq ▸ mem_elementsOf hh)
  have helements : elementsOf (items ++ [⟨a, key⟩]) = elementsOf items ++ [a] :=
    elementsOf_append _ _
  refine ⟨helements ▸ hnodup, ?_, ?_, ?_, ?_, fun h hh => ?_, fun h hh => ?_⟩
  · have horder := ho.order
    rw [hsplit] at horder hnodup
    rw [helements, hsplit, happ, List.append_assoc]
    exact horder.pushBack (by simpa using hnodup)
  · rw [helements, hhead, ho.head, List.head?_append, hsplit, List.head?_append]
    cases before <;> rfl
  · rw [helements, List.getLast?_concat, htail]
  · rw [hitems, ho.numItems, List.length_append, List.length_singleton]
  · rw [hkey]
    rcases List.mem_append.mp hh with hh | hh
    · rw [Function.update_of_ne (hne h hh), ho.key h hh]
    · obtain rfl := List.mem_singleton.mp hh
      exact Function.update_self ..
  · rw [hhashv]
    rcases List.mem_append.mp hh with hh | hh
    · rw [Function.update_of_ne (hne h hh), ho.hashv h hh]
    · obtain rfl := List.mem_singleton.mp hh
      exact Function.update_self ..

/-- The only element of a new table. -/
lemma appOrder_singleton {m' : UtMemory ι} {c' : TableCell ι} (hhead : m'.head = some a)
    (happ : m'.app = m.app.pushFront none a) (hkey : m'.key = Function.update m.key a key)
    (hhashv : m'.hashv = Function.update m.hashv a (hashJen key)) (hitems : c'.numItems = 1)
    (htail : c'.tail = a) : AppOrder m' c' [⟨a, key⟩] := by
  have horder : (m.app.pushFront none a).Segment none [a] none :=
    Links.Segment.pushFront (l := []) trivial (List.nodup_singleton a)
  refine ⟨List.nodup_singleton a, happ ▸ horder, hhead, congrArg some htail.symm, hitems, ?_, ?_⟩
  · simp [hkey]
  · simp [hhashv, UtHandle.hashv]

/-- **The first half of `HASH_ADD_KEYPTR`**: the element is the last one, in a new table if there
was none. -/
lemma exists_linkItem {head : UtHash ι} (hm : m.Represents head) (hnew : a ∉ head.elements)
    (key : UInt32) : ∃ m' id c x, m.linkItem a key = some m' ∧ m'.head = some x ∧ m'.tbl x = id ∧
      m'.tables id = some c ∧
      Owned (m'.count id c a key) id { c with numItems := c.numItems + 1 }
        ((head.getD .make).items ++ [⟨a, key⟩]) ∧
      AppOrder (m'.count id c a key) { c with numItems := c.numItems + 1 }
        ((head.getD .make).items ++ [⟨a, key⟩]) ∧
      Bucketed m'.bkt { c with numItems := c.numItems + 1 } (head.getD .make) := by
  cases head with
  | none =>
      obtain ⟨hhead, htables⟩ := hm
      simp only [UtMemory.linkItem, hhead]
      refine ⟨_, m.fresh, _, a, rfl, rfl, Function.update_self .., Function.update_self .., ?_, ?_,
        fun b => chainOf_empty _, rfl, rfl, rfl, rfl⟩
      · refine ⟨Function.update_self .., fun id' hne => ?_, fun h hh => ?_⟩
        · simp [UtMemory.count, UtMemory.makeTable, hne, htables]
        · obtain rfl := List.mem_singleton.mp hh
          exact Function.update_self ..
      · exact appOrder_singleton rfl rfl rfl rfl rfl rfl
  | some t =>
      obtain ⟨id, c, hw, ho, hk⟩ := hm
      obtain ⟨x, hx, hhead⟩ := ho.exists_head
      let m₁ : UtMemory ι := { m with
        app := m.app.pushBack c.tail a
        key := Function.update m.key a key }
      have hset : m₁.setTable { c with tail := a } = some
          { m₁ with tables := Function.update m.tables id (some { c with tail := a }) } :=
        hw.setTable ho.exists_head rfl
      have hne : ∀ h ∈ t.items, h.element ≠ a := fun h hh heq => hnew (heq ▸ mem_elementsOf hh)
      have htable : m.tables (m.tbl x.element) = some c := by rw [hw.tbl x hx, hw.table]
      refine ⟨{ m₁ with tables := Function.update m.tables id (some { c with tail := a }) }, id,
        { c with tail := a }, x.element, ?_, hhead, hw.tbl x hx,
        Function.update_self .., ?_, ?_, hk.chain, hk.numBuckets, hk.log2NumBuckets,
        hk.ineffExpands, hk.noexpand⟩
      · simp only [UtMemory.linkItem, hhead, UtMemory.table, Option.bind_some, htable,
          Option.bind_eq_bind]
        rw [← hhead]
        exact hset
      · refine hw.update (Function.update_idem ..) fun h hh => ?_
        rcases List.mem_append.mp hh with hh | hh
        · exact (Function.update_of_ne (hne h hh) _ _).trans (hw.tbl h hh)
        · obtain rfl := List.mem_singleton.mp hh
          exact Function.update_self ..
      · exact ho.concat hnew rfl rfl rfl rfl rfl rfl

/-- **`HASH_ADD_INT`** of an element that is not linked. -/
theorem represents_hashAdd {head : UtHash ι} (hm : m.Represents head)
    (hnew : a ∉ head.elements) (key : UInt32) :
    ∃ m', m.hashAdd a key = some m' ∧ m'.Represents (head.hashAdd a key) := by
  obtain ⟨m₁, id, c, x, hlink, hhead, htbl, htable, hw, ho, hk⟩ := exists_linkItem hm hnew key
  obtain ⟨m₂, hadd, hm₂⟩ := represents_addToBkt hw ho hk
  refine ⟨m₂, ?_, hm₂⟩
  rw [← hadd]
  simp only [UtMemory.hashAdd, hlink, Option.bind_eq_bind, Option.bind_some, hhead, UtMemory.table,
    htbl, htable, UtMemory.setTable, Option.map_some, UtMemory.count, UtHandle.hashv]

end Add

/-! ### Deleting -/

section Delete

variable {m : UtMemory ι} {id : ℕ} {c : TableCell ι} {t : UtTable ι} {a : ι}

/-- A linked element, and what is left of the handles without it. -/
lemma exists_split {items : List (UtHandle ι)} (hnodup : (elementsOf items).Nodup)
    (ha : a ∈ elementsOf items) : ∃ l h l', items = l ++ h :: l' ∧ h.element = a ∧
      items.filter (·.element ≠ a) = l ++ l' := by
  obtain ⟨h, hh, rfl⟩ := List.mem_map.mp ha
  obtain ⟨l, l', rfl⟩ := List.append_of_mem hh
  refine ⟨l, h, l', rfl, rfl, ?_⟩
  rw [elementsOf_append, elementsOf_cons, List.nodup_append, List.nodup_cons] at hnodup
  obtain ⟨-, ⟨hl', -⟩, hdisjoint⟩ := hnodup
  have hkeep : ∀ k : List (UtHandle ι), (∀ x ∈ k, x.element ≠ h.element) →
      k.filter (·.element ≠ h.element) = k := fun k hk =>
    List.filter_eq_self.mpr fun x hx => by simpa using hk x hx
  rw [List.filter_append, List.filter_cons, hkeep l, hkeep l']
  · simp
  · exact fun x hx heq => hl' (heq ▸ mem_elementsOf hx)
  · exact fun x hx => hdisjoint _ (mem_elementsOf hx) _ List.mem_cons_self

/-- The bucket of the element loses it. -/
lemma ChainOf.unlink {k : Links ι} {cell : BucketCell ι} {b : UtBucket ι} (hc : ChainOf k cell b)
    (ha : a ∈ elementsOf b.chain) :
    ChainOf (k.unlink a)
      { cell with
        hhHead := if cell.hhHead = some a then k.next a else cell.hhHead
        count := cell.count - 1 }
      { b with chain := b.chain.filter (·.element ≠ a) } := by
  obtain ⟨l, h, l', hsplit, rfl, hfilter⟩ := exists_split hc.nodup ha
  obtain ⟨hlinks, hhead, hcount, hmult, hnodup⟩ := hc
  rw [hfilter]
  rw [hsplit, elementsOf_append, elementsOf_cons] at hlinks hhead hnodup
  refine ⟨?_, ?_, ?_, hmult, ?_⟩
  · simpa using hlinks.unlink hnodup
  · have hnext := (Links.segment_append.mp hlinks).2.2.1
    rw [Option.or_none] at hnext
    cases l with
    | nil => simpa [hhead] using hnext
    | cons x l =>
        have hne : x.element ≠ h.element := by
          rw [List.nodup_append] at hnodup
          exact hnodup.2.2 _ List.mem_cons_self _ List.mem_cons_self
        simp [hhead, hne]
  · rw [hcount, hsplit]
    simp
  · rw [elementsOf_append]
    exact hnodup.sublist ((List.Sublist.refl _).append (List.sublist_cons_self _ _))

/-- The other buckets are as they were. -/
lemma Bucketed.unlink {k : Links ι} (hk : Bucketed k c t) (hnodup : (elementsOf t.items).Nodup)
    {h : UtHandle ι} (hh : h ∈ t.items) :
    let bkt := hashToBkt h.hashv c.numBuckets
    Bucketed (k.unlink h.element)
      { c with buckets := Function.update c.buckets bkt { c.buckets bkt with
                hhHead := if (c.buckets bkt).hhHead = some h.element then k.next h.element
                  else (c.buckets bkt).hhHead
                count := (c.buckets bkt).count - 1 } } (t.unlink h.element) := by
  refine ⟨fun b => ?_, hk.numBuckets, hk.log2NumBuckets, hk.ineffExpands, hk.noexpand⟩
  rw [hk.numBuckets]
  have hmem : h.element ∈ elementsOf
      (t.buckets (hashToBkt h.hashv (2 ^ t.log2NumBuckets))).chain :=
    mem_elementsOf ((t.mem_chain _ h).mpr ⟨hh, rfl⟩)
  have hin := hk.chain (hashToBkt h.hashv (2 ^ t.log2NumBuckets))
  by_cases hb : b = hashToBkt h.hashv (2 ^ t.log2NumBuckets)
  · subst hb
    simpa [UtTable.unlink] using hin.unlink hmem
  · have hapart := apart_buckets hnodup _ b (Ne.symm hb)
    have hout : h.element ∉ elementsOf (t.buckets b).chain := hapart _ hmem
    have hsame : (t.buckets b).chain.filter (·.element ≠ h.element) = (t.buckets b).chain :=
      List.filter_eq_self.mpr fun x hx => decide_eq_true fun heq =>
        hout (heq ▸ mem_elementsOf hx)
    have hother : ChainOf (k.unlink h.element) (c.buckets b) (t.buckets b) := by
      obtain ⟨l, x, l', hsplit, hx, -⟩ := exists_split hin.nodup hmem
      have hlinks := hin.links
      rw [hsplit, elementsOf_append, elementsOf_cons, hx] at hlinks
      refine (hk.chain b).congr fun y hy => hlinks.unlink_of_notMem ?_ ?_
      · exact fun hyl => hapart y (by rw [hsplit]; simp [hyl]) hy
      · exact fun hyl => hapart y (by rw [hsplit]; simp [hyl]) hy
    simp only [UtTable.unlink, hsame, Function.update_of_ne hb]
    exact hother

/-- The element is alone exactly if it has no neighbour. -/
lemma AppOrder.alone_iff {items : List (UtHandle ι)} (ho : AppOrder m c items)
    (ha : a ∈ elementsOf items) :
    (m.app.prev a = none ∧ m.app.next a = none) ↔ items.filter (·.element ≠ a) = [] := by
  obtain ⟨l, h, l', hsplit, rfl, hfilter⟩ := exists_split ho.nodup ha
  have horder := ho.order
  rw [hsplit, elementsOf_append, elementsOf_cons] at horder
  obtain ⟨-, hprev, hnext, -⟩ := Links.segment_append.mp horder
  rw [hprev, hnext, Option.or_none, Option.or_none, List.getLast?_eq_none_iff,
    List.head?_eq_none_iff, hfilter, List.append_eq_nil_iff]
  simp [elementsOf]

omit [DecidableEq ι] in
/-- The last element of a list without `a`. -/
lemma getLast?_without [DecidableEq ι] {l l' : List ι} {b : ι} (hnodup : (l ++ a :: l').Nodup)
    (hlast : (l ++ a :: l').getLast? = some b) :
    (l ++ l').getLast? = if a = b then l.getLast? else some b := by
  rcases List.eq_nil_or_concat l' with rfl | ⟨before, x, rfl⟩
  · obtain rfl : a = b := by simpa using hlast
    rw [if_pos rfl, List.append_nil]
  · rw [List.concat_eq_append] at hnodup hlast ⊢
    rw [← List.cons_append, ← List.append_assoc, List.getLast?_concat] at hlast
    obtain rfl := Option.some.inj hlast
    have hne : a ≠ x := by
      rintro rfl
      exact (List.nodup_cons.mp (List.nodup_append.mp hnodup).2.1).1 (by simp)
    rw [if_neg hne, ← List.append_assoc, List.getLast?_concat]

/-- The tail that `HASH_DEL` sets is the last of the others. -/
lemma AppOrder.tailWithout {items : List (UtHandle ι)} (ho : AppOrder m c items)
    (ha : a ∈ elementsOf items) :
    m.tailWithout c a = (elementsOf (items.filter (·.element ≠ a))).getLast? := by
  obtain ⟨l, h, l', hsplit, rfl, hfilter⟩ := exists_split ho.nodup ha
  have horder := ho.order
  have hlast := ho.tail
  have hnodup := ho.nodup
  rw [hsplit, elementsOf_append, elementsOf_cons] at horder hlast hnodup
  obtain ⟨-, hprev, -⟩ := Links.segment_append.mp horder
  rw [UtMemory.tailWithout, hprev, Option.or_none, hfilter, elementsOf_append,
    getLast?_without hnodup hlast]

/-- The neighbours of the element are linked to each other, and the head and the tail moved. -/
lemma AppOrder.unlink {items : List (UtHandle ι)} (ho : AppOrder m c items)
    (ha : a ∈ elementsOf items) {m' : UtMemory ι} {c' : TableCell ι}
    (hhead : m'.head = if (m.app.prev a).isSome then m.head else m.app.next a)
    (happ : m'.app = m.app.unlink a) (hkey : m'.key = m.key) (hhashv : m'.hashv = m.hashv)
    (hitems : c'.numItems = c.numItems - 1) (htail : m.tailWithout c a = some c'.tail) :
    AppOrder m' c' (items.filter (·.element ≠ a)) := by
  rw [ho.tailWithout ha] at htail
  obtain ⟨l, h, l', hsplit, rfl, hfilter⟩ := exists_split ho.nodup ha
  have horder := ho.order
  have hfirst := ho.head
  have hnodup := ho.nodup
  rw [hsplit, elementsOf_append, elementsOf_cons] at horder hfirst hnodup
  obtain ⟨-, hprev, hnext, -⟩ := Links.segment_append.mp horder
  rw [Option.or_none] at hprev hnext
  rw [hfilter] at htail ⊢
  have hmem : ∀ x ∈ l ++ l', x ∈ items := by
    intro x hx
    rw [hsplit]
    rcases List.mem_append.mp hx with hx | hx <;> simp [hx]
  refine ⟨?_, ?_, ?_, htail, ?_, fun x hx => ?_, fun x hx => ?_⟩
  · rw [elementsOf_append]
    exact hnodup.sublist ((List.Sublist.refl _).append (List.sublist_cons_self _ _))
  · rw [happ, elementsOf_append]
    exact horder.unlink hnodup
  · rw [hhead, hprev, hnext, hfirst, elementsOf_append]
    cases l with
    | nil => rfl
    | cons x l => simp
  · rw [hitems, ho.numItems, hsplit]
    simp only [List.length_append, List.length_cons]
    omega
  · rw [hkey, ho.key x (hmem x hx)]
  · rw [hhashv, ho.hashv x (hmem x hx)]

/-- **`HASH_DEL`** of a linked element. -/
theorem represents_hashDelete {head : UtHash ι} (hm : m.Represents head)
    (ha : a ∈ head.elements) :
    ∃ m', m.hashDelete a = some m' ∧ m'.Represents (head.hashDelete a) := by
  cases head with
  | none => cases ha
  | some t =>
      obtain ⟨id, c, hw, ho, hk⟩ := hm
      have ha : a ∈ elementsOf t.items := ha
      obtain ⟨x, hx, hhead⟩ := ho.exists_head
      have htable := hw.table_eq ho.exists_head
      have hitems : (t.unlink a).items = t.items.filter (·.element ≠ a) := rfl
      rw [UtMemory.hashDelete, UtHash.hashDelete, Option.bind_some, hitems]
      by_cases halone : t.items.filter (·.element ≠ a) = []
      · rw [if_pos ((ho.alone_iff ha).mpr halone), if_pos halone]
        simp only [hhead, htable, Option.bind_eq_bind, Option.bind_some]
        rw [hw.tbl x hx]
        refine ⟨_, rfl, rfl, fun id' => ?_⟩
        by_cases hid : id' = id
        · rw [hid]
          exact Function.update_self ..
        · exact (Function.update_of_ne hid _ _).trans (hw.only id' hid)
      · rw [if_neg ((ho.alone_iff ha).not.mpr halone), if_neg halone]
        obtain ⟨tail, htail⟩ : ∃ tail, m.tailWithout c a = some tail := by
          rw [ho.tailWithout ha]
          exact Option.ne_none_iff_exists'.mp fun hnone =>
            halone (List.map_eq_nil_iff.mp (List.getLast?_eq_none_iff.mp hnone))
        have hset : m.setTable { c with tail } = some
            { m with tables := Function.update m.tables id (some { c with tail }) } :=
          hw.setTable ho.exists_head rfl
        simp only [htable, htail, hset, Option.bind_eq_bind, Option.bind_some]
        obtain ⟨h, hh, rfl⟩ := List.mem_map.mp ha
        let m₁ : UtMemory ι := { m with
          tables := Function.update m.tables id (some { c with tail })
          head := if (m.app.prev h.element).isSome then m.head else m.app.next h.element
          app := m.app.unlink h.element }
        have hsub : ∀ y ∈ t.items.filter (·.element ≠ h.element), m₁.tbl y.element = id :=
          fun y hy => hw.tbl y (List.mem_of_mem_filter hy)
        have hw₁ : Owned m₁ id { c with tail } (t.items.filter (·.element ≠ h.element)) :=
          hw.update rfl hsub
        have ho₁ : AppOrder m₁ { c with tail, numItems := c.numItems - 1 }
            (t.items.filter (·.element ≠ h.element)) :=
          ho.unlink ha rfl rfl rfl rfl rfl htail
        have hk₁ := hk.unlink ho.nodup hh
        have hfirst := ho₁.exists_head
        show ∃ m', m₁.delInBkt h.element = some m' ∧ _
        rw [UtMemory.delInBkt]
        simp only [hw₁.table_eq hfirst, Option.bind_eq_bind, Option.bind_some]
        refine ⟨_, hw₁.setTable hfirst rfl, id, _, hw₁.update rfl hsub, ?_, ?_⟩
        · exact ho₁.congr rfl rfl rfl rfl rfl rfl
        · rw [show m₁.hashv h.element = h.hashv from ho.hashv h hh]
          exact ⟨hk₁.chain, hk₁.numBuckets, hk₁.log2NumBuckets, hk₁.ineffExpands, hk₁.noexpand⟩

end Delete

end InfiTracing
