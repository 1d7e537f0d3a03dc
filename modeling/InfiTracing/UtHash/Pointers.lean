import Mathlib.Algebra.Ring.Nat
import InfiTracing.Framework.LinkedList
import InfiTracing.UtHash

/-!
# `uthash`, on its pointers

The macros of `uthash.h` as they work on memory.  The handle in each element has the pointers to
its neighbours in the order of adding, those to its neighbours in its bucket, and the one to the
table; the table has the array of buckets and the last element.  The head is a variable of the
user's.

An element is named by its pointer, which stands for that to its handle as well: the two are a
constant apart.  The links of either kind are those of `Framework/LinkedList.lean`.  A table that
has been freed is gone from `tables`, and an access to it has no result; nor has a loop that goes
on longer than there are items in the table.

`ideal_chain_maxlen` and `nonideal_items` are members of the table of which an expansion is the
only user, and local here.  The `unsigned` counters do not wrap for want of memory.
-/

namespace InfiTracing

open Framework

/-- `UT_hash_bucket`. -/
structure BucketCell (ι : Type) where
  hhHead : Option ι := none
  count : ℕ := 0
  expandMult : ℕ := 0

/-- `UT_hash_table`; `tail` is never `NULL`. -/
structure TableCell (ι : Type) where
  buckets : ℕ → BucketCell ι
  numBuckets : ℕ
  log2NumBuckets : ℕ
  numItems : ℕ
  tail : ι
  ineffExpands : ℕ
  noexpand : Bool

/-- `UT_hash_handle`, less its constant `keylen`. -/
structure HandleCell (ι : Type) where
  tbl : ℕ
  prev : Option ι
  next : Option ι
  hhPrev : Option ι
  hhNext : Option ι
  key : UInt32
  hashv : UInt32

/-- A head, the handles of the elements, and the tables there are. -/
structure UtMemory (ι : Type) where
  head : Option ι
  /-- `next` and `prev` of the handles. -/
  app : Links ι
  /-- `hh_next` and `hh_prev` of the handles. -/
  bkt : Links ι
  /-- What `key` of the handles points to. -/
  key : ι → UInt32
  hashv : ι → UInt32
  tbl : ι → ℕ
  tables : ℕ → Option (TableCell ι)
  /-- The next result of `malloc` for a table. -/
  fresh : ℕ

/-! ## Expansion -/

/-- What `HASH_EXPAND_BUCKETS` changes as it goes through the handles. -/
structure Moving (ι : Type) where
  links : Links ι
  newBuckets : ℕ → BucketCell ι
  nonidealItems : ℕ

section Expansion

variable {ι : Type} [DecidableEq ι]

/-- One handle moved by `HASH_EXPAND_BUCKETS`. -/
def moveCell (hashv : ι → UInt32) (numBkts idealChainMaxlen : ℕ) (thh : ι) (st : Moving ι) :
    Moving ι :=
  let bkt := hashToBkt (hashv thh) numBkts
  let newbkt := st.newBuckets bkt
  let count := newbkt.count + 1
  let nonideal := decide (count > idealChainMaxlen)
  { links := st.links.pushFront newbkt.hhHead thh
    newBuckets := Function.update st.newBuckets bkt
      { hhHead := some thh
        count := count
        expandMult := if nonideal then count / idealChainMaxlen else newbkt.expandMult }
    nonidealItems := if nonideal then st.nonidealItems + 1 else st.nonidealItems }

/-- `while (_he_thh)`; the pointer to the next handle is read before the handle is moved. -/
def moveChain (hashv : ι → UInt32) (numBkts idealChainMaxlen : ℕ) :
    ℕ → Option ι → Moving ι → Option (Moving ι)
  | _, none, st => some st
  | 0, some _, _ => none
  | fuel + 1, some thh, st =>
      let nxt := st.links.next thh
      moveChain hashv numBkts idealChainMaxlen fuel nxt
        (moveCell hashv numBkts idealChainMaxlen thh st)

/-- `HASH_EXPAND_BUCKETS(tbl)`, on the links in the buckets and the table. -/
def TableCell.expandBuckets (tbl : TableCell ι) (bkt : Links ι) (hashv : ι → UInt32) :
    Option (Links ι × TableCell ι) := do
  let idealChainMaxlen := (tbl.numItems >>> (tbl.log2NumBuckets + 1)) +
    if tbl.numItems &&& (tbl.numBuckets * 2 - 1) ≠ 0 then 1 else 0
  let moved ← (List.range tbl.numBuckets).foldlM (fun st i =>
      moveChain hashv (tbl.numBuckets * 2) idealChainMaxlen tbl.numItems (tbl.buckets i).hhHead st)
    ⟨bkt, fun _ => {}, 0⟩
  let ineffExpands :=
    if moved.nonidealItems > tbl.numItems >>> 1 then tbl.ineffExpands + 1 else 0
  some (moved.links, { tbl with
    buckets := moved.newBuckets
    numBuckets := tbl.numBuckets * 2
    log2NumBuckets := tbl.log2NumBuckets + 1
    ineffExpands := ineffExpands
    noexpand := tbl.noexpand || decide (ineffExpands > 1) })

end Expansion

/-! ## The macros -/

namespace UtMemory

variable {ι : Type} [DecidableEq ι]

omit [DecidableEq ι] in
/-- `*(head)->hh.tbl`. -/
def table (m : UtMemory ι) : Option (TableCell ι) :=
  m.head.bind fun head => m.tables (m.tbl head)

omit [DecidableEq ι] in
/-- Writing to members of `*(head)->hh.tbl`. -/
def setTable (m : UtMemory ι) (tbl : TableCell ι) : Option (UtMemory ι) :=
  m.head.map fun head =>
    { m with tables := Function.update m.tables (m.tbl head) (some tbl) }

/-- `HASH_MAKE_TABLE(hh, head)`. -/
def makeTable (m : UtMemory ι) (head : ι) : UtMemory ι :=
  { m with
    tbl := Function.update m.tbl head m.fresh
    tables := Function.update m.tables m.fresh (some
      { buckets := fun _ => {}
        numBuckets := 32
        log2NumBuckets := 5
        numItems := 0
        tail := head
        ineffExpands := 0
        noexpand := false })
    fresh := m.fresh + 1 }

/-- The first half of `HASH_ADD_KEYPTR`: the element becomes the last one. -/
def linkItem (m : UtMemory ι) (add : ι) (key : UInt32) : Option (UtMemory ι) :=
  let m := { m with key := Function.update m.key add key }
  match m.head with
  | none => some ({ m with app := m.app.pushFront none add, head := some add }.makeTable add)
  | some _ => do
      let tbl ← m.table
      { m with app := m.app.pushBack tbl.tail add }.setTable { tbl with tail := add }

/-- `HASH_ADD_TO_BKT(tbl->buckets[bkt], addhh)`. -/
def addToBkt (m : UtMemory ι) (bkt : ℕ) (addhh : ι) : Option (UtMemory ι) := do
  let tbl ← m.table
  let head := tbl.buckets bkt
  let m := { m with bkt := m.bkt.pushFront head.hhHead addhh }
  let tbl := { tbl with
    buckets := Function.update tbl.buckets bkt
      { head with hhHead := some addhh, count := head.count + 1 } }
  if head.count + 1 ≥ (head.expandMult + 1) * 10 ∧ tbl.noexpand = false then
    let (links, tbl) ← tbl.expandBuckets m.bkt m.hashv
    { m with bkt := links }.setTable tbl
  else m.setTable tbl

/-- `HASH_ADD_INT(head, intfield, add)`. -/
def hashAdd (m : UtMemory ι) (add : ι) (key : UInt32) : Option (UtMemory ι) := do
  let m ← m.linkItem add key
  let head ← m.head
  let tbl ← m.table
  let m ← m.setTable { tbl with numItems := tbl.numItems + 1 }
  let m := { m with
    tbl := Function.update m.tbl add (m.tbl head)
    hashv := Function.update m.hashv add (hashJen key) }
  m.addToBkt (hashToBkt (hashJen key) tbl.numBuckets) add

omit [DecidableEq ι] in
/-- `HASH_FIND_INT(head, findint, out)`. -/
def hashFind (m : UtMemory ι) (key : UInt32) : Option (Option ι) :=
  match m.head with
  | none => some none
  | some _ => do
      let tbl ← m.table
      m.bkt.find (fun out => m.key out = key) tbl.numItems
        (tbl.buckets (hashToBkt (hashJen key) tbl.numBuckets)).hhHead

/-- `HASH_DEL_IN_BKT(hh, tbl->buckets[bkt], hh_del)`, and the count of the items. -/
def delInBkt (m : UtMemory ι) (hhDel : ι) : Option (UtMemory ι) := do
  let tbl ← m.table
  let bkt := hashToBkt (m.hashv hhDel) tbl.numBuckets
  let head := tbl.buckets bkt
  { m with bkt := m.bkt.unlink hhDel }.setTable { tbl with
    buckets := Function.update tbl.buckets bkt { head with
      hhHead := if head.hhHead = some hhDel then m.bkt.next hhDel else head.hhHead
      count := head.count - 1 }
    numItems := tbl.numItems - 1 }

/-- The tail after `HASH_DEL(head, delptr)`; `prev` is not `NULL` where it is used. -/
def tailWithout (m : UtMemory ι) (tbl : TableCell ι) (delptr : ι) : Option ι :=
  if delptr = tbl.tail then m.app.prev delptr else some tbl.tail

/-- `HASH_DEL(head, delptr)`. -/
def hashDelete (m : UtMemory ι) (delptr : ι) : Option (UtMemory ι) :=
  if m.app.prev delptr = none ∧ m.app.next delptr = none then do
    let head ← m.head
    let _ ← m.table
    some { m with tables := Function.update m.tables (m.tbl head) none, head := none }
  else do
    let tbl ← m.table
    let tail ← m.tailWithout tbl delptr
    let m ← m.setTable { tbl with tail }
    { m with
      head := if (m.app.prev delptr).isSome then m.head else m.app.next delptr
      app := m.app.unlink delptr }.delInBkt delptr

omit [DecidableEq ι] in
/-- `HASH_COUNT(head)`. -/
def hashCount (m : UtMemory ι) : Option ℕ :=
  match m.head with
  | none => some 0
  | some _ => m.table.map TableCell.numItems

/-- `HASH_FSCK(hh, head)`, the check of debug builds. -/
def hashFsck (m : UtMemory ι) : Option Bool :=
  match m.head with
  | none => some true
  | some head => do
      let tbl ← m.table
      some ((List.range tbl.numBuckets).all (fun i =>
          m.bkt.check tbl.numItems none (tbl.buckets i).hhHead = some (tbl.buckets i).count) &&
        ((List.range tbl.numBuckets).map fun i => (tbl.buckets i).count).sum = tbl.numItems &&
        m.app.check tbl.numItems none (some head) = some tbl.numItems)

/-- The owner of an element that is not linked writes to it, or gives it back. -/
def scribble (m : UtMemory ι) (a : ι) (cell : HandleCell ι) : UtMemory ι :=
  { m with
    app := ⟨Function.update m.app.next a cell.next, Function.update m.app.prev a cell.prev⟩
    bkt := ⟨Function.update m.bkt.next a cell.hhNext, Function.update m.bkt.prev a cell.hhPrev⟩
    key := Function.update m.key a cell.key
    hashv := Function.update m.hashv a cell.hashv
    tbl := Function.update m.tbl a cell.tbl }

/-- `HASH_ITER(hh, head, el, tmp) { HASH_DEL(head, el); .. }`, and the elements in the order they
are visited.  `tmp` is read before `el` is deleted, and what it points on to afterwards.  The
owner does with a deleted element what `cells` says. -/
def deleteAll (cells : ι → HandleCell ι) :
    ℕ → (el tmp : Option ι) → UtMemory ι → Option (List ι × UtMemory ι)
  | _, none, _, m => some ([], m)
  | 0, some _, _, _ => none
  | fuel + 1, some el, tmp, m => do
      let m ← m.hashDelete el
      let m := m.scribble el (cells el)
      let (visited, m) ← deleteAll cells fuel tmp (tmp.bind m.app.next) m
      some (el :: visited, m)

end UtMemory

end InfiTracing
