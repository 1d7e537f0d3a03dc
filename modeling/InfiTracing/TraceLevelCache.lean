import InfiTracing.Framework.Machine
import InfiTracing.Lru

/-!
# The trace level of a frame

`find_trace_level_or_call_filter` of `trace_level_func_cache.pyx`: the level a filter gives a
code object, through the LRU.  A code object is its address, and a filter a fixed function of
it.

Every entry holds the level of the code object it was stored for (`Caches`).  What the LRU
compares is the low half of the address, so a lookup is right unless it reaches the entry of
another code object with a different level; `answers_right_iff` is this at the level of
runs.  Where the addresses differ in their low halves the cache is transparent
(`findTraceLevelOrCallFilter_eq`).  `wrong_level` is a run in which it is not.
-/

namespace InfiTracing

open Framework

/-! ## Levels and filters -/

/-- `NO_TRACE`. -/
def noTrace : ℤ := 0

/-- `NO_TRACE_NESTED`. -/
def noTraceNested : ℤ := 1

/-- What a filter returns for a frame: `None`, a `bool`, or an `int` that fits a C `int`. -/
inductive FilterResult
  | none
  | bool (b : Bool)
  | int (i : Int32)

/-- `int(trace_level_result)`, after a `None` has been replaced by `NO_TRACE`. -/
def FilterResult.traceLevel : FilterResult → ℤ
  | .none => noTrace
  | .bool b => if b then 1 else 0
  | .int i => i.toInt

/-- A filter, as a function of the address of the frame's code object. -/
abbrev Filter := UInt64 → FilterResult

/-! ## The cache -/

/-- `filter_func(frame)`: what it returns, and that it has been called for the code object. -/
def callFilter (filterFunc : Filter) (fCode : UInt64) : FilterResult × List UInt64 :=
  (filterFunc fCode, [fCode])

/-- `call_filter_and_store_trace_level(filter_func, frame, trace_level_lru)`, for a frame with
the given `f_code`: the level, the LRU afterwards, and the code objects the filter has been called
for. -/
def callFilterAndStoreTraceLevel (filterFunc : Filter) (fCode : UInt64) (traceLevelLru : Lru) :
    Option (ℤ × Lru × List UInt64) :=
  let (traceLevelResult, calls) := callFilter filterFunc fCode
  let traceLevel := traceLevelResult.traceLevel
  (traceLevelLru.insert fCode traceLevel).map fun lru => (traceLevel, lru, calls)

/-- `find_trace_level_or_call_filter(frame, filter_func, trace_level_lru)`, with the code objects
the filter has been called for. -/
def findTraceLevelOrCallFilter (fCode : UInt64) (filterFunc : Filter) (traceLevelLru : Lru) :
    Option (ℤ × Lru × List UInt64) :=
  let (traceLevel, lru) := traceLevelLru.find fCode
  if traceLevel ≠ lruNotFound then some (traceLevel, lru, [])
  else callFilterAndStoreTraceLevel filterFunc fCode lru

/-- An LRU with room that is linked as it should be, in which every linked entry holds the
level of the code object it was stored for. -/
structure Caches (filterFunc : Filter) (l : Lru) : Prop where
  linked : l.Linked
  room : 1 ≤ l.capacity
  level : ∀ h ∈ l.hashHandle.items,
    (l.entries h.element).v = (filterFunc (l.entries h.element).k).traceLevel

lemma caches_create (filterFunc : Filter) {capacity : ℕ} (hcap : 1 ≤ capacity) :
    Caches filterFunc (.create capacity) :=
  ⟨Lru.linked_create _, hcap, by simp [Lru.create]⟩

lemma Caches.find {filterFunc : Filter} {l : Lru} (hl : Caches filterFunc l) (k : UInt64) :
    Caches filterFunc (l.find k).2 := by
  obtain ⟨hlinked, hcap, hentries, hsub⟩ := hl.linked.find k
  refine ⟨hlinked, hcap ▸ hl.room, fun h hh => ?_⟩
  rw [hentries]
  exact hl.level h (hsub h hh)

/-- The code object the entry for `fCode` was stored for, if there is an entry. -/
def cachedCode (l : Lru) (fCode : UInt64) : Option UInt64 :=
  (l.hashHandle.hashFind (lowInt fCode)).map fun e => (l.entries e).k

/-- The lookup does not reach the entry of a code object of another level.  An entry whose
level is `LRU_NOT_FOUND` is as good as none. -/
def reachesOwnLevel (filterFunc : Filter) (l : Lru) (fCode : UInt64) : Bool :=
  (cachedCode l fCode).all fun k =>
    (filterFunc k).traceLevel = lruNotFound ∨
      (filterFunc k).traceLevel = (filterFunc fCode).traceLevel

/-- **One lookup.**  It returns, keeps the cache in order, and its answer is the filter's
exactly if it does not reach an entry of another level. -/
theorem Caches.exists_lookup {filterFunc : Filter} {l : Lru} (hl : Caches filterFunc l)
    (fCode : UInt64) :
    ∃ level l' calls, findTraceLevelOrCallFilter fCode filterFunc l = some (level, l', calls) ∧
      Caches filterFunc l' ∧ l'.capacity = l.capacity ∧
      (∀ h ∈ l'.hashHandle.items, (l'.entries h.element).k = fCode ∨
        h ∈ l.hashHandle.items ∧ l'.entries h.element = l.entries h.element) ∧
      (level = (filterFunc fCode).traceLevel ↔ reachesOwnLevel filterFunc l fCode = true) := by
  have hfind := hl.find fCode
  obtain ⟨-, hcap, hentries, hsub⟩ := hl.linked.find fCode
  have hvalue : (l.find fCode).1 =
      ((cachedCode l fCode).map fun k => (filterFunc k).traceLevel).getD lruNotFound := by
    unfold Lru.find cachedCode
    cases hhash : l.hashHandle.hashFind (lowInt fCode) with
    | none => rfl
    | some e => simpa using hl.level _ (UtHash.mem_items_of_hashFind hhash)
  by_cases hmiss : (l.find fCode).1 = lruNotFound
  · -- the filter is called, and its answer is stored and returned
    obtain ⟨l', hinsert, hl'⟩ := hfind.linked.exists_insert hfind.room fCode
      (filterFunc fCode).traceLevel
    have hroom : 1 ≤ l'.capacity := hfind.room.trans_eq hl'.capacity.symm
    refine ⟨(filterFunc fCode).traceLevel, l', [fCode], ?_, ⟨hl'.linked, hroom, fun h hh => ?_⟩,
      hl'.capacity.trans hcap, fun h hh => ?_, ?_⟩
    · rw [findTraceLevelOrCallFilter]
      simp only [hmiss, ne_eq, not_true_eq_false, if_false]
      simp only [callFilterAndStoreTraceLevel, callFilter, hinsert, Option.map_some]
    · rcases hl'.entry h hh with hnew | ⟨hold, hsame⟩
      · rw [hnew]
      · rw [hsame]
        exact hfind.level h hold
    · rcases hl'.entry h hh with hnew | ⟨hold, hsame⟩
      · exact .inl (by rw [hnew])
      · exact .inr ⟨hsub h hold, by rw [hsame, hentries]⟩
    · refine iff_of_true rfl ?_
      rw [hvalue] at hmiss
      cases hcode : cachedCode l fCode with
      | none => simp [reachesOwnLevel, hcode]
      | some k => simp_all [reachesOwnLevel]
  · refine ⟨(l.find fCode).1, (l.find fCode).2, [], ?_, hfind, hcap,
      fun h hh => .inr ⟨hsub h hh, by rw [hentries]⟩, ?_⟩
    · rw [findTraceLevelOrCallFilter]
      exact if_pos hmiss
    · cases hcode : cachedCode l fCode with
      | none => simp [hvalue, hcode] at hmiss
      | some k =>
          simp only [hvalue, hcode, Option.map_some, Option.getD_some] at hmiss ⊢
          simp [reachesOwnLevel, hcode, hmiss]

/-- **One lookup, whatever the entries hold.**  The answer is the value of the entry found, or
the filter's, which has been written to the next entry then. -/
theorem Lru.Holds.lookup {p : ℕ → LruEntry → Prop} {filterFunc : Filter} {l l' : Lru}
    (hl : l.Holds p) {fCode : UInt64} {level : ℤ} {calls : List UInt64}
    (h : findTraceLevelOrCallFilter fCode filterFunc l = some (level, l', calls)) :
    (∃ e, l.hashHandle.hashFind (lowInt fCode) = some e ∧ p e (l.entries e) ∧
        (l.entries e).v = level ∧ level ≠ lruNotFound ∧ l'.Holds p) ∨
      ((∀ e ∈ l.hashHandle.hashFind (lowInt fCode), (l.entries e).v = lruNotFound) ∧
        level = (filterFunc fCode).traceLevel ∧
        ∃ e, (l.find fCode).2.nextEntry = some e ∧ ∀ p' : ℕ → LruEntry → Prop,
          (∀ e' ≠ e, ∀ entry, p e' entry → p' e' entry) → p' e ⟨fCode, level⟩ → l'.Holds p') := by
  have hfind := hl.find fCode
  unfold findTraceLevelOrCallFilter at h
  by_cases hmiss : (l.find fCode).1 = lruNotFound
  · right
    simp only [hmiss, ne_eq, not_true_eq_false, if_false, callFilterAndStoreTraceLevel,
      callFilter, Option.map_eq_some_iff, Prod.mk.injEq] at h
    obtain ⟨l'', hinsert, rfl, rfl, -⟩ := h
    refine ⟨fun e he => ?_, rfl, hfind.insert hinsert⟩
    rw [Option.mem_def] at he
    simpa [Lru.find, he] using hmiss
  · left
    simp only [hmiss, ne_eq, not_false_eq_true, if_true, Option.some.injEq, Prod.mk.injEq] at h
    obtain ⟨rfl, rfl, -⟩ := h
    cases hhash : l.hashHandle.hashFind (lowInt fCode) with
    | none => simp [Lru.find, hhash] at hmiss
    | some e =>
        have hvalue : (l.find fCode).1 = (l.entries e).v := by simp [Lru.find, hhash]
        exact ⟨e, rfl, hl.entry _ (UtHash.mem_items_of_hashFind hhash), hvalue.symm, hmiss,
          hfind⟩

/-! ## Addresses that differ in their low halves -/

/-- A cache of levels of code objects from `codes` only. -/
structure CachesIn (codes : Set UInt64) (filterFunc : Filter) (l : Lru) : Prop
    extends Caches filterFunc l where
  code : ∀ h ∈ l.hashHandle.items, (l.entries h.element).k ∈ codes

lemma cachesIn_create (codes : Set UInt64) (filterFunc : Filter) {capacity : ℕ}
    (hcap : 1 ≤ capacity) : CachesIn codes filterFunc (.create capacity) :=
  ⟨caches_create filterFunc hcap, by simp [Lru.create]⟩

/-- **Transparency.**  Among code objects that differ in the low halves of their addresses,
every lookup gives the level of the code object looked up. -/
theorem CachesIn.findTraceLevelOrCallFilter_eq {codes : Set UInt64}
    (hcodes : Set.InjOn lowInt codes) {filterFunc : Filter} {l : Lru}
    (hl : CachesIn codes filterFunc l) {fCode : UInt64} (hcode : fCode ∈ codes) :
    ∃ l' calls, findTraceLevelOrCallFilter fCode filterFunc l =
        some ((filterFunc fCode).traceLevel, l', calls) ∧ CachesIn codes filterFunc l' := by
  obtain ⟨level, l', calls, hlookup, hcaches, -, hentry, hlevel⟩ := hl.exists_lookup fCode
  have hown : reachesOwnLevel filterFunc l fCode = true := by
    unfold reachesOwnLevel cachedCode
    cases hfind : l.hashHandle.hashFind (lowInt fCode) with
    | none => rfl
    | some e =>
        have hmem := UtHash.mem_items_of_hashFind hfind
        have hsame : (l.entries e).k = fCode :=
          hcodes (hl.code _ hmem) hcode (hl.linked.key _ hmem).symm
        simp [hsame]
  obtain rfl := hlevel.mpr hown
  refine ⟨l', calls, hlookup, hcaches, fun h hh => ?_⟩
  rcases hentry h hh with hnew | ⟨hold, hsame⟩
  · exact hnew ▸ hcode
  · rw [hsame]
    exact hl.code h hold

/-! ## Runs of lookups -/

/-- An LRU, and the code objects looked up through it with the answers. -/
structure CacheRun where
  lru : Lru
  answers : List (UInt64 × ℤ)

/-- A run before its first lookup. -/
def CacheRun.start (capacity : ℕ) : CacheRun := ⟨.create capacity, []⟩

/-- The answers are the filter's. -/
def CacheRun.Right (filterFunc : Filter) (s : CacheRun) : Prop :=
  ∀ answer ∈ s.answers, answer.2 = (filterFunc answer.1).traceLevel

/-- One frame after the other is looked up; an action is the frame's code object. -/
def cacheMachine (filterFunc : Filter) (capacity : ℕ) : Machine CacheRun UInt64 where
  init s := s = .start capacity
  step s fCode :=
    (findTraceLevelOrCallFilter fCode filterFunc s.lru).map fun (level, lru, _) =>
      ⟨lru, s.answers ++ [(fCode, level)]⟩

section Runs

variable {filterFunc : Filter} {capacity : ℕ}

variable (capacity) in
/-- Every lookup returns, and its answer is right exactly if it reaches its own level. -/
lemma Caches.exists_step {s : CacheRun} (hs : Caches filterFunc s.lru) (fCode : UInt64) :
    ∃ s', (cacheMachine filterFunc capacity).step s fCode = some s' ∧
      Caches filterFunc s'.lru ∧ s'.answers.map Prod.fst = s.answers.map Prod.fst ++ [fCode] ∧
      (s'.Right filterFunc ↔
        s.Right filterFunc ∧ reachesOwnLevel filterFunc s.lru fCode = true) := by
  obtain ⟨level, l', calls, hlookup, hcaches, -, -, hlevel⟩ := hs.exists_lookup fCode
  refine ⟨⟨l', s.answers ++ [(fCode, level)]⟩, by simp [cacheMachine, hlookup], hcaches,
    by simp, ?_⟩
  rw [← hlevel]
  simp [CacheRun.Right, or_imp, forall_and]

lemma caches_of_reachable (hcap : 1 ≤ capacity) {s : CacheRun}
    (hs : (cacheMachine filterFunc capacity).Reachable s) : Caches filterFunc s.lru := by
  refine hs.invariant (I := fun s => Caches filterFunc s.lru) (fun s hinit => ?_)
    (fun s fCode s' _ hcaches hstep => ?_)
  · obtain rfl : s = .start capacity := hinit
    exact caches_create filterFunc hcap
  · obtain ⟨t, ht, hcaches', -⟩ := hcaches.exists_step capacity fCode
    exact Option.some.inj (ht.symm.trans hstep) ▸ hcaches'

variable (capacity) in
/-- No lookup fails. -/
lemma Caches.exists_exec {s : CacheRun} (hs : Caches filterFunc s.lru) (codes : List UInt64) :
    ∃ s', (cacheMachine filterFunc capacity).exec s codes = some s' ∧
      s'.answers.map Prod.fst = s.answers.map Prod.fst ++ codes := by
  induction codes generalizing s with
  | nil => exact ⟨s, rfl, by simp⟩
  | cons fCode codes ih =>
      obtain ⟨t, hstep, hcaches, hfst, -⟩ := hs.exists_step capacity fCode
      obtain ⟨s', hrun, hanswers⟩ := ih hcaches
      exact ⟨s', by rw [Machine.exec_cons, hstep]; exact hrun, by simp [hanswers, hfst]⟩

end Runs

/-- **When the cache is transparent.**  Every frame is answered, and all answers are the
filter's exactly in the runs none of whose lookups reaches the entry of a code object of
another level. -/
theorem answers_right_iff (filterFunc : Filter) {capacity : ℕ} (hcap : 1 ≤ capacity)
    (codes : List UInt64) :
    ∃ s, (cacheMachine filterFunc capacity).exec (.start capacity) codes = some s ∧
      s.answers.map Prod.fst = codes ∧
      (s.Right filterFunc ↔
        ((cacheMachine filterFunc capacity).restrict fun s fCode =>
          reachesOwnLevel filterFunc s.lru fCode = true).exec (.start capacity) codes =
            some s) := by
  have hstart : Caches filterFunc (CacheRun.start capacity).lru := caches_create filterFunc hcap
  obtain ⟨s, hrun, hanswers⟩ := hstart.exists_exec capacity codes
  refine ⟨s, hrun, by simpa [CacheRun.start] using hanswers, ?_⟩
  refine Machine.exec_restrict_iff (fun s fCode s' hs hstep => ?_) (.init rfl)
    (by simp [CacheRun.Right, CacheRun.start]) hrun
  obtain ⟨t, ht, -, -, hright⟩ :=
    (caches_of_reachable hcap hs).exists_step capacity fCode
  exact Option.some.inj (ht.symm.trans hstep) ▸ hright

/-- Two code objects that differ in their high halves only: the first is to be traced and the
second is not. -/
def highHalfFilter : Filter := fun fCode =>
  if fCode = 0x7f1000002000 then .int 4 else .none

theorem answers_right_iff_highHalf :
    ∃ s, (cacheMachine highHalfFilter 1024).exec (.start 1024)
        [0x7f1000002000, 0x7f1000002000, 0x7f2000003000] = some s ∧
      s.answers.map Prod.fst = [0x7f1000002000, 0x7f1000002000, 0x7f2000003000] ∧
      (s.Right highHalfFilter ↔
        ((cacheMachine highHalfFilter 1024).restrict fun s fCode =>
          reachesOwnLevel highHalfFilter s.lru fCode = true).exec (.start 1024)
            [0x7f1000002000, 0x7f1000002000, 0x7f2000003000] = some s) :=
  answers_right_iff highHalfFilter (by decide) _

/-- **A wrong level.**  The frame of the second code object is given the level stored for the
first, whose address has the same low half. -/
theorem wrong_level :
    ¬ ∀ (filterFunc : Filter) (capacity : ℕ), 1 ≤ capacity → ∀ (codes : List UInt64) (s : CacheRun),
      (cacheMachine filterFunc capacity).exec (.start capacity) codes = some s →
        s.Right filterFunc := by
  intro h
  have hrun : ((cacheMachine highHalfFilter 1024).exec (.start 1024)
      [0x7f1000002000, 0x7f2000002000]).any
        (fun s => decide (s.answers = [(0x7f1000002000, 4), (0x7f2000002000, 4)])) = true := by
    decide +kernel
  obtain ⟨s, hs, hanswers⟩ := (Option.any_eq_true _ _).mp hrun
  have hright := h highHalfFilter 1024 (by decide) _ s hs (0x7f2000002000, 4)
    (by rw [of_decide_eq_true hanswers]; simp)
  exact absurd hright (by decide)

end InfiTracing
