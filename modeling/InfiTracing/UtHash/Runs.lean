import Mathlib.Data.List.Find
import InfiTracing.Framework.Machine
import InfiTracing.UtHash.Refinement

/-!
# Runs on the pointers of `uthash`

What is seen of a table that is in memory: the results of `HASH_FIND` and `HASH_COUNT`, the
integrity check of debug builds, and the loop that deletes everything.

`uthash_exec` is about all runs that keep the contract of the macros.  The memory of an element
that is not linked is its owner's, who may write anything to it or give it back.
-/

namespace InfiTracing

open Framework

variable {ι : Type} [DecidableEq ι] {m : UtMemory ι} {head : UtHash ι}

/-! ## What is seen of a table -/

omit [DecidableEq ι] in
lemma UtMemory.Represents.head_eq (hm : m.Represents head) : m.head = head.elements.head? := by
  cases head with
  | none => exact hm.1
  | some t =>
      obtain ⟨id, c, -, ho, -⟩ := hm
      exact ho.head

omit [DecidableEq ι] in
/-- What follows the head. -/
lemma UtMemory.Represents.next_eq (hm : m.Represents head) :
    m.head.bind m.app.next = head.elements.tail.head? := by
  rw [hm.head_eq]
  cases head with
  | none => rfl
  | some t =>
      obtain ⟨id, c, -, ho, -⟩ := hm
      have horder := ho.order
      show (elementsOf t.items).head?.bind m.app.next = (elementsOf t.items).tail.head?
      cases helements : elementsOf t.items with
      | nil => rfl
      | cons a l =>
          rw [helements] at horder
          exact horder.next_head

omit [DecidableEq ι] in
theorem UtMemory.Represents.hashFind (hm : m.Represents head) (key : UInt32) :
    m.hashFind key = some (head.hashFind key) := by
  cases head with
  | none => rw [UtMemory.hashFind, hm.1, UtHash.hashFind, Option.bind_none]
  | some t =>
      obtain ⟨id, c, hw, ho, hk⟩ := hm
      obtain ⟨x, -, hhead⟩ := ho.exists_head
      have hchain := hk.chain (hashToBkt (hashJen key) c.numBuckets)
      have hfuel := hk.length_le (hashToBkt (hashJen key) c.numBuckets)
      rw [UtMemory.hashFind, hhead]
      simp only [hw.table_eq ho.exists_head, Option.bind_eq_bind, Option.bind_some]
      rw [hchain.head, hchain.links.find _ (by rw [length_elementsOf, ho.numItems]; exact hfuel),
        elementsOf, List.find?_map, UtHash.hashFind, Option.bind_some, ← hk.numBuckets]
      refine congrArg some (congrArg _ (List.find?_congr fun h hh => ?_))
      rw [Function.comp_apply, ho.key h ((t.mem_chain _ h).mp hh).1]

omit [DecidableEq ι] in
theorem UtMemory.Represents.hashCount (hm : m.Represents head) :
    m.hashCount = some head.hashCount := by
  cases head with
  | none => rw [UtMemory.hashCount, hm.1]; rfl
  | some t =>
      obtain ⟨id, c, hw, ho, hk⟩ := hm
      obtain ⟨x, -, hhead⟩ := ho.exists_head
      rw [UtMemory.hashCount, hhead]
      simp only [hw.table_eq ho.exists_head, Option.map_some, ho.numItems]
      rfl

omit [DecidableEq ι] in
/-- The chains have all the items. -/
lemma Bucketed.sum_count {k : Links ι} {c : TableCell ι} {t : UtTable ι} (hk : Bucketed k c t)
    (hnodup : (elementsOf t.items).Nodup) :
    ((List.range c.numBuckets).map fun i => (c.buckets i).count).sum = t.items.length := by
  have hall : t.inBucketOrder.Nodup := List.Nodup.of_map _ (hk.nodup_chains hnodup _)
  have hperm : t.inBucketOrder.Perm t.items :=
    (List.perm_ext_iff_of_nodup hall (List.Nodup.of_map _ hnodup)).mpr t.mem_inBucketOrder
  rw [← hperm.length_eq, UtTable.inBucketOrder, List.length_flatMap, hk.numBuckets]
  exact congrArg List.sum (List.map_congr_left fun i _ => (hk.chain i).count)

/-- **`HASH_FSCK` has nothing to say.** -/
theorem UtMemory.Represents.hashFsck (hm : m.Represents head) : m.hashFsck = some true := by
  cases head with
  | none => rw [UtMemory.hashFsck, hm.1]
  | some t =>
      obtain ⟨id, c, hw, ho, hk⟩ := hm
      obtain ⟨x, -, hhead⟩ := ho.exists_head
      have happ : m.app.check c.numItems none (some x.element) = some c.numItems := by
        rw [← hhead, ho.head, ho.order.check (by rw [length_elementsOf, ho.numItems]),
          length_elementsOf, ho.numItems]
      have hbkt : ∀ i, m.bkt.check c.numItems none (c.buckets i).hhHead =
          some (c.buckets i).count := by
        intro i
        have hchain := hk.chain i
        rw [hchain.head, hchain.count, hchain.links.check, length_elementsOf]
        rw [length_elementsOf, ho.numItems]
        exact hk.length_le i
      rw [UtMemory.hashFsck, hhead]
      simp [hw.table_eq ho.exists_head, happ, hbkt, hk.sum_count ho.nodup, ← ho.numItems]

/-- What an element that is not linked has in it does not matter. -/
theorem UtMemory.Represents.scribble (hm : m.Represents head) {a : ι} (ha : a ∉ head.elements)
    (cell : HandleCell ι) : (m.scribble a cell).Represents head := by
  cases head with
  | none => exact hm
  | some t =>
      obtain ⟨id, c, hw, ho, hk⟩ := hm
      have hne : ∀ h ∈ t.items, h.element ≠ a := fun h hh heq => ha (heq ▸ mem_elementsOf hh)
      have hne' : ∀ b ∈ elementsOf t.items, b ≠ a := fun b hb heq => ha (heq ▸ hb)
      refine ⟨id, c, ⟨hw.table, hw.only, fun h hh => ?_⟩, ⟨ho.nodup, ?_, ho.head, ho.tail,
        ho.numItems, fun h hh => ?_, fun h hh => ?_⟩, fun b => (hk.chain b).congr fun x hx => ?_,
        hk.numBuckets, hk.log2NumBuckets, hk.ineffExpands, hk.noexpand⟩
      · exact (Function.update_of_ne (hne h hh) _ _).trans (hw.tbl h hh)
      · exact ho.order.congr (fun b hb => Function.update_of_ne (hne' b hb) _ _)
          fun b hb => Function.update_of_ne (hne' b hb) _ _
      · exact (Function.update_of_ne (hne h hh) _ _).trans (ho.key h hh)
      · exact (Function.update_of_ne (hne h hh) _ _).trans (ho.hashv h hh)
      · obtain ⟨h, hh, rfl, -⟩ := mem_items_of_chain hx
        exact ⟨Function.update_of_ne (hne h hh) _ _, Function.update_of_ne (hne h hh) _ _⟩

omit [DecidableEq ι] in
lemma UtMemory.Represents.nodup (hm : m.Represents head) : head.elements.Nodup := by
  cases head with
  | none => exact List.nodup_nil
  | some t =>
      obtain ⟨id, c, -, ho, -⟩ := hm
      exact ho.nodup

omit [DecidableEq ι] in
lemma UtMemory.Represents.eq_none (hm : m.Represents head) (h : head.elements = []) :
    head = none := by
  cases head with
  | none => rfl
  | some t =>
      obtain ⟨id, c, -, ho, -⟩ := hm
      have hempty : elementsOf t.items = [] := h
      exact absurd ho.tail (by simp [hempty])

/-! ## The destructors -/

/-- **The loop of the destructors** goes through the elements once, in the order they were linked,
and leaves no table behind. -/
theorem UtMemory.Represents.deleteAll (hm : m.Represents head) (cells : ι → HandleCell ι)
    {fuel : ℕ} (hfuel : head.elements.length ≤ fuel) :
    ∃ m', m.deleteAll cells fuel m.head (m.head.bind m.app.next) = some (head.elements, m') ∧
      m'.Represents none := by
  induction fuel generalizing m head with
  | zero =>
      have hempty : head.elements = [] := List.length_eq_zero_iff.mp (Nat.le_zero.mp hfuel)
      obtain rfl := hm.eq_none hempty
      rw [hm.1]
      exact ⟨m, rfl, hm⟩
  | succ fuel ih =>
      rw [hm.next_eq, hm.head_eq]
      have hnodup := hm.nodup
      cases helements : head.elements with
      | nil =>
          obtain rfl := hm.eq_none helements
          exact ⟨m, rfl, hm⟩
      | cons a l =>
          rw [helements] at hnodup hfuel
          obtain ⟨ha, -⟩ := List.nodup_cons.mp hnodup
          obtain ⟨m₁, hrun, hm₁⟩ := represents_hashDelete hm (helements ▸ List.mem_cons_self)
          have hrest : (head.hashDelete a).elements = l := by
            have hkeep : l.filter (· ≠ a) = l :=
              List.filter_eq_self.mpr fun b hb => decide_eq_true fun heq => ha (heq ▸ hb)
            rw [UtHash.elements_hashDelete, helements, List.filter_cons, hkeep]
            simp
          -- what the owner does with the element is not seen
          have hm₂ := hm₁.scribble (hrest ▸ ha) (cells a)
          obtain ⟨m', hdelete, hm'⟩ := ih hm₂ (by rw [hrest]; exact Nat.le_of_succ_le_succ hfuel)
          refine ⟨m', ?_, hm'⟩
          rw [hm₂.head_eq, hrest] at hdelete
          simp only [List.head?_cons, List.tail_cons, UtMemory.deleteAll, hrun, Option.bind_eq_bind,
            Option.bind_some, hdelete]

/-! ## Runs -/

/-- A use of a table. -/
inductive UtCall (ι : Type)
  | add (element : ι) (key : UInt32)
  | delete (element : ι)
  | scribble (element : ι) (cell : HandleCell ι)

/-- The calls of an owner that adds and writes to elements only while they are not linked, and
deletes them only while they are. -/
def utHash (ι : Type) [DecidableEq ι] : Machine (UtHash ι) (UtCall ι) where
  init head := head = none
  step head
    | .add a key => if a ∈ head.elements then none else some (head.hashAdd a key)
    | .delete a => if a ∈ head.elements then some (head.hashDelete a) else none
    | .scribble a _ => if a ∈ head.elements then none else some head

/-- The calls on the pointers, from a head that is `NULL`, whatever is in the elements. -/
def utMemory (ι : Type) [DecidableEq ι] : Machine (UtMemory ι) (UtCall ι) where
  init m := m.head = none ∧ ∀ id, m.tables id = none
  step m
    | .add a key => m.hashAdd a key
    | .delete a => m.hashDelete a
    | .scribble a cell => some (m.scribble a cell)

/-- A call. -/
lemma UtMemory.Represents.step (hm : m.Represents head) {call : UtCall ι} {head' : UtHash ι}
    (h : (utHash ι).step head call = some head') :
    ∃ m', (utMemory ι).step m call = some m' ∧ m'.Represents head' := by
  cases call with
  | add a key =>
      obtain ⟨ha, rfl⟩ : a ∉ head.elements ∧ head.hashAdd a key = head' := by
        simpa [utHash] using h
      exact represents_hashAdd hm ha key
  | delete a =>
      obtain ⟨ha, rfl⟩ : a ∈ head.elements ∧ head.hashDelete a = head' := by
        simpa [utHash] using h
      exact represents_hashDelete hm ha
  | scribble a cell =>
      obtain ⟨ha, rfl⟩ : a ∉ head.elements ∧ head = head' := by
        simpa [utHash] using h
      exact ⟨_, rfl, hm.scribble ha cell⟩

/-- A run. -/
lemma UtMemory.Represents.exec (hm : m.Represents head) {calls : List (UtCall ι)}
    {head' : UtHash ι}
    (h : (utHash ι).exec head calls = some head') :
    ∃ m', (utMemory ι).exec m calls = some m' ∧ m'.Represents head' := by
  induction calls generalizing m head with
  | nil => exact ⟨m, rfl, Option.some.inj h ▸ hm⟩
  | cons call calls ih =>
      obtain ⟨head₁, hstep, hrest⟩ := Option.bind_eq_some_iff.mp h
      obtain ⟨m₁, hrun, hm₁⟩ := hm.step hstep
      obtain ⟨m', hrun', hm'⟩ := ih hm₁ hrest
      refine ⟨m', ?_, hm'⟩
      rw [Machine.exec_cons, hrun]
      exact hrun'

/-- **The pointers of `uthash` are right.**  After any calls that keep the contract, the macros
have gone through no freed table and no loop without end; `HASH_FIND` and `HASH_COUNT` return
what they return of the list of elements; the integrity check of debug builds passes; and the loop
of the destructors visits each element once, in the order they were linked, and leaves no
table. -/
theorem uthash_exec (hinit : (utMemory ι).init m) {calls : List (UtCall ι)}
    (h : (utHash ι).exec none calls = some head) :
    ∃ m', (utMemory ι).exec m calls = some m' ∧
      (∀ key, m'.hashFind key = some (head.hashFind key)) ∧
      m'.hashCount = some head.hashCount ∧ m'.hashFsck = some true ∧
      ∀ cells, ∃ m'', m'.deleteAll cells head.hashCount m'.head (m'.head.bind m'.app.next) =
        some (head.elements, m'') ∧ m''.head = none ∧ ∀ id, m''.tables id = none := by
  have hm : m.Represents none := hinit
  obtain ⟨m', hrun, hm'⟩ := hm.exec h
  refine ⟨m', hrun, hm'.hashFind, hm'.hashCount, hm'.hashFsck, fun cells => ?_⟩
  exact hm'.deleteAll cells (UtHash.length_elements head).le

/-- Two elements, of which the first is deleted. -/
theorem uthash_exec_two :
    ∃ head, (utHash Bool).exec none [.add true 5, .add false 7, .delete true] = some head ∧
      head.elements = [false] ∧
      ∃ m', (utMemory Bool).exec ⟨none, ⟨fun _ => some true, fun _ => some true⟩,
          ⟨fun _ => some true, fun _ => some true⟩, fun _ => 0, fun _ => 0, fun _ => 0,
          fun _ => none, 0⟩ [.add true 5, .add false 7, .delete true] = some m' ∧
        (∀ key, m'.hashFind key = some (head.hashFind key)) ∧
        m'.hashCount = some head.hashCount ∧ m'.hashFsck = some true ∧
        ∀ cells, ∃ m'', m'.deleteAll cells head.hashCount m'.head (m'.head.bind m'.app.next) =
          some (head.elements, m'') ∧ m''.head = none ∧ ∀ id, m''.tables id = none := by
  have hrun : ((utHash Bool).exec none [.add true 5, .add false 7, .delete true]).any
      (fun head => decide (head.elements = [false])) = true := by decide +kernel
  obtain ⟨head, hhead, helements⟩ := (Option.any_eq_true _ _).mp hrun
  exact ⟨head, hhead, of_decide_eq_true helements, uthash_exec ⟨rfl, fun _ => rfl⟩ hhead⟩

end InfiTracing
