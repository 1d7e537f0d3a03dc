import InfiTracing.Lru.Order
import InfiTracing.TraceLevelCache

/-!
# When the filter is called

The calls of the filter that a lookup reports and the keys that leave the LRU, recorded beside a
run of lookups.  An entry that is not found is signalled in band, by the value `LRU_NOT_FOUND`, and
`insert` does not look for an entry with its key; so the cache relies on no entry holding that
value.

`filter_calls_iff` says for which runs it may: the keys in the LRU stay different, and the
filter is called for a code object again only after its entry has been evicted, exactly if no
code object of level -1 is looked up while it has an entry.  `filter_called_twice` is a run
with such a lookup.
-/

namespace InfiTracing

open Framework

/-! ## The record -/

/-- The filter is called for a code object, or its entry leaves the LRU. -/
inductive FilterEvent
  | called (fCode : UInt64)
  | evicted (fCode : UInt64)
  deriving DecidableEq

/-- The filter has been called for the code object, and its entry has not been evicted since.
The events come the latest first. -/
def Outstanding (events : List FilterEvent) (fCode : UInt64) : Prop :=
  ∃ between earlier, events = between ++ .called fCode :: earlier ∧ .evicted fCode ∉ between

/-- Between two calls for a code object its entry is evicted. -/
def OnlyAfterEviction (events : List FilterEvent) : Prop :=
  ∀ later fCode between earlier,
    events = later ++ .called fCode :: (between ++ .called fCode :: earlier) →
      .evicted fCode ∈ between

section Events

variable {events : List FilterEvent} {fCode fCode' : UInt64}

lemma not_outstanding_nil (fCode : UInt64) : ¬ Outstanding [] fCode := by
  rintro ⟨between, earlier, hsplit, -⟩
  simp at hsplit

lemma onlyAfterEviction_nil : OnlyAfterEviction [] := by
  intro later fCode between earlier hsplit
  simp at hsplit

lemma outstanding_called :
    Outstanding (.called fCode' :: events) fCode ↔ fCode' = fCode ∨ Outstanding events fCode := by
  constructor
  · rintro ⟨between, earlier, hsplit, hnot⟩
    rcases List.cons_eq_append_iff.mp hsplit with ⟨rfl, hsplit⟩ | ⟨between', rfl, hrest⟩
    · left
      simpa using (List.cons.inj hsplit).1
    · exact .inr ⟨between', earlier, hrest, fun h => hnot (List.mem_cons_of_mem _ h)⟩
  · rintro (rfl | ⟨between, earlier, rfl, hnot⟩)
    · exact ⟨[], events, rfl, List.not_mem_nil⟩
    · exact ⟨.called fCode' :: between, earlier, rfl, by simpa using hnot⟩

lemma outstanding_evicted :
    Outstanding (.evicted fCode' :: events) fCode ↔ fCode' ≠ fCode ∧ Outstanding events fCode := by
  constructor
  · rintro ⟨between, earlier, hsplit, hnot⟩
    rcases List.cons_eq_append_iff.mp hsplit with ⟨rfl, hsplit⟩ | ⟨between', rfl, hrest⟩
    · simp at hsplit
    · refine ⟨?_, between', earlier, hrest, fun h => hnot (List.mem_cons_of_mem _ h)⟩
      rintro rfl
      exact hnot List.mem_cons_self
  · rintro ⟨hne, between, earlier, rfl, hnot⟩
    refine ⟨.evicted fCode' :: between, earlier, rfl, ?_⟩
    simp [hnot, Ne.symm hne]

lemma onlyAfterEviction_called :
    OnlyAfterEviction (.called fCode :: events) ↔
      OnlyAfterEviction events ∧ ¬ Outstanding events fCode := by
  constructor
  · intro h
    refine ⟨fun later k between earlier hsplit => ?_, ?_⟩
    · exact h (.called fCode :: later) k between earlier (by rw [hsplit]; rfl)
    · rintro ⟨between, earlier, hsplit, hnot⟩
      exact hnot (h [] fCode between earlier (by rw [hsplit]; rfl))
  · rintro ⟨hevents, hnot⟩ later k between earlier hsplit
    rcases List.cons_eq_append_iff.mp hsplit with ⟨rfl, hsplit⟩ | ⟨later', rfl, hrest⟩
    · obtain ⟨hk, hrest⟩ := List.cons.inj hsplit
      obtain rfl : fCode = k := by simpa using hk
      by_contra hev
      exact hnot ⟨between, earlier, hrest, hev⟩
    · exact hevents later' k between earlier hrest

lemma onlyAfterEviction_evicted :
    OnlyAfterEviction (.evicted fCode :: events) ↔ OnlyAfterEviction events := by
  constructor
  · intro h later k between earlier hsplit
    exact h (.evicted fCode :: later) k between earlier (by rw [hsplit]; rfl)
  · intro hevents later k between earlier hsplit
    rcases List.cons_eq_append_iff.mp hsplit with ⟨rfl, hsplit⟩ | ⟨later', rfl, hrest⟩
    · simp at hsplit
    · exact hevents later' k between earlier hrest

/-- Several evictions. -/
lemma outstanding_evictions {gone : List UInt64} :
    Outstanding (gone.map FilterEvent.evicted ++ events) fCode ↔
      fCode ∉ gone ∧ Outstanding events fCode := by
  induction gone with
  | nil => simp
  | cons k gone ih =>
      rw [List.map_cons, List.cons_append, outstanding_evicted, ih, List.mem_cons, not_or]
      tauto

lemma onlyAfterEviction_evictions {gone : List UInt64} :
    OnlyAfterEviction (gone.map FilterEvent.evicted ++ events) ↔ OnlyAfterEviction events := by
  induction gone with
  | nil => rfl
  | cons k gone ih => exact onlyAfterEviction_evicted.trans ih

/-- What is recorded stays recorded. -/
lemma OnlyAfterEviction.of_append {later : List FilterEvent}
    (h : OnlyAfterEviction (later ++ events)) : OnlyAfterEviction events := by
  intro later' k between earlier hsplit
  exact h (later ++ later') k between earlier (by rw [hsplit, List.append_assoc])

end Events

/-- The events of one lookup: the calls of the filter it reports, and the keys that are not in
the LRU any more. -/
def recordLookup (filterFunc : Filter) (s : CacheRun) (fCode : UInt64)
    (events : List FilterEvent) : List FilterEvent :=
  match findTraceLevelOrCallFilter fCode filterFunc s.lru with
  | some (_, lru, calls) =>
      (s.lru.keys.filter (· ∉ lru.keys)).map FilterEvent.evicted ++
        (calls.reverse.map FilterEvent.called ++ events)
  | none => events

/-- The runs of lookups of certain code objects, with the record. -/
def recordedCache (filterFunc : Filter) (capacity : ℕ) (codes : Set UInt64) :
    Machine (CacheRun × List FilterEvent) codes :=
  ((cacheMachine filterFunc capacity).withHistory [] (recordLookup filterFunc)).relabel
    fun fCode : codes => fCode.1

/-! ## The invariant -/

section Invariant

variable {codes : Set UInt64} {filterFunc : Filter} {capacity : ℕ} {l : Lru}
  {events : List FilterEvent} {fCode : UInt64}

/-- The entries are the outstanding calls, each once. -/
structure Accounted (l : Lru) (events : List FilterEvent) : Prop where
  nodup : l.keys.Nodup
  outstanding : ∀ k, Outstanding events k ↔ k ∈ l.keys

lemma CachesIn.keyed (hl : CachesIn codes filterFunc l) (hnodup : l.keys.Nodup) :
    l.Keyed codes := by
  refine ⟨hl.linked, hnodup, fun k hk => ?_⟩
  obtain ⟨e, he, rfl⟩ := List.mem_map.mp hk
  obtain ⟨h, hh, rfl⟩ := List.mem_map.mp he
  exact hl.code h hh

variable (hcodes : Set.InjOn lowInt codes)

include hcodes

/-- What is found under a linked key is its level. -/
lemma CachesIn.find_of_mem (hl : CachesIn codes filterFunc l) (hnodup : l.keys.Nodup)
    (hmem : fCode ∈ l.keys) : (l.find fCode).1 = (filterFunc fCode).traceLevel := by
  obtain ⟨⟨e, he, hkey, hvalue⟩, -, -⟩ := (hl.keyed hnodup).find_of_mem hcodes hmem
  obtain ⟨h, hh, rfl⟩ := List.mem_map.mp he
  rw [hvalue, hl.level h hh, hkey]

omit hcodes in
/-- The keys are accounted for after a call that was due. -/
lemma Accounted.insert (ha : Accounted l events) (hlinked : l.Linked)
    (hnot : fCode ∉ l.keys) {v : ℤ} {l' : Lru} (hinsert : l.insert fCode v = some l') :
    Accounted l' ((l.keys.filter (· ∉ l'.keys)).map FilterEvent.evicted ++
      .called fCode :: events) := by
  have hkeys := Lru.keys_insert hlinked hinsert
  have hsub : ∀ k ∈ (if l.hashHandle.hashCount ≥ l.capacity then l.keys.tail else l.keys),
      k ∈ l.keys := by
    intro k hk
    split_ifs at hk
    · exact List.mem_of_mem_tail hk
    · exact hk
  refine ⟨?_, fun k => ?_⟩
  · have hrest : (if l.hashHandle.hashCount ≥ l.capacity then l.keys.tail else l.keys).Nodup := by
      split_ifs
      · exact ha.nodup.tail
      · exact ha.nodup
    rw [hkeys, List.nodup_append]
    refine ⟨hrest, List.nodup_singleton fCode, fun x hx y hy => ?_⟩
    rw [List.mem_singleton.mp hy]
    exact ne_of_mem_of_not_mem (hsub x hx) hnot
  · rw [outstanding_evictions, outstanding_called, ha.outstanding, List.mem_filter,
      decide_eq_true_eq]
    constructor
    · rintro ⟨hstays, rfl | hk⟩
      · simp [hkeys]
      · exact not_not.mp fun hgone => hstays ⟨hk, hgone⟩
    · intro hk
      refine ⟨fun hgone => hgone.2 hk, ?_⟩
      rw [hkeys, List.mem_append, List.mem_singleton] at hk
      exact hk.symm.imp Eq.symm (hsub k)

/-- **One lookup.**  It keeps the calls due exactly if the code object is not of level -1 or has
no entry, and then it keeps the account. -/
lemma Accounted.lookup (ha : Accounted l events) (hl : CachesIn codes filterFunc l)
    (hcode : fCode ∈ codes) (hdue : OnlyAfterEviction events) {answers : List (UInt64 × ℤ)}
    {level : ℤ} {l' : Lru} {calls : List UInt64}
    (hlookup : findTraceLevelOrCallFilter fCode filterFunc l = some (level, l', calls)) :
    (OnlyAfterEviction (recordLookup filterFunc ⟨l, answers⟩ fCode events) ↔
        ¬ ((filterFunc fCode).traceLevel = lruNotFound ∧ fCode ∈ l.keys)) ∧
      (¬ ((filterFunc fCode).traceLevel = lruNotFound ∧ fCode ∈ l.keys) →
        Accounted l' (recordLookup filterFunc ⟨l, answers⟩ fCode events)) := by
  have hkeyed := hl.keyed ha.nodup
  have hrecord : recordLookup filterFunc ⟨l, answers⟩ fCode events =
      (l.keys.filter (· ∉ l'.keys)).map FilterEvent.evicted ++
        (calls.reverse.map FilterEvent.called ++ events) := by
    simp only [recordLookup, hlookup]
  unfold findTraceLevelOrCallFilter callFilterAndStoreTraceLevel callFilter at hlookup
  by_cases hmem : fCode ∈ l.keys
  · have hvalue := hl.find_of_mem hcodes ha.nodup hmem
    by_cases hlevel : (filterFunc fCode).traceLevel = lruNotFound
    · -- the entry is there, and the filter is called all the same
      simp only [hvalue, hlevel, ne_eq, not_true_eq_false, if_false, Option.map_eq_some_iff,
        Prod.mk.injEq] at hlookup
      obtain ⟨l'', -, -, -, rfl⟩ := hlookup
      have hagain : ¬ OnlyAfterEviction (recordLookup filterFunc ⟨l, answers⟩ fCode events) := by
        rw [hrecord, onlyAfterEviction_evictions]
        exact fun h => (onlyAfterEviction_called.mp h).2 ((ha.outstanding fCode).mpr hmem)
      exact ⟨iff_of_false hagain fun h => h ⟨hlevel, hmem⟩, fun h => absurd ⟨hlevel, hmem⟩ h⟩
    · -- a hit: no event, and the same keys in another order
      obtain ⟨-, hkeys, hkeyed'⟩ := hkeyed.find_of_mem hcodes hmem
      simp only [hvalue, ne_eq, hlevel, not_false_eq_true, if_true, Option.some.injEq,
        Prod.mk.injEq] at hlookup
      obtain ⟨-, rfl, rfl⟩ := hlookup
      have hsame : ∀ k, k ∈ (l.find fCode).2.keys ↔ k ∈ l.keys := by
        intro k
        rw [hkeys]
        by_cases hk : k = fCode
        · simp [hk, hmem]
        · simp [hk]
      have hnone : l.keys.filter (· ∉ (l.find fCode).2.keys) = [] :=
        List.filter_eq_nil_iff.mpr fun k hk => by simpa using (hsame k).mpr hk
      rw [hrecord, hnone]
      exact ⟨iff_of_true hdue fun h => hlevel h.1,
        fun _ => ⟨hkeyed'.nodup, fun k => (ha.outstanding k).trans (hsame k).symm⟩⟩
  · -- a miss: the filter is called, and its answer inserted
    have hfind := hkeyed.find_of_notMem hcodes hcode hmem
    simp only [hfind, ne_eq, not_true_eq_false, if_false, Option.map_eq_some_iff,
      Prod.mk.injEq] at hlookup
    obtain ⟨l'', hinsert, -, rfl, rfl⟩ := hlookup
    have hcall : OnlyAfterEviction (.called fCode :: events) :=
      onlyAfterEviction_called.mpr ⟨hdue, fun h => hmem ((ha.outstanding fCode).mp h)⟩
    rw [hrecord]
    exact ⟨iff_of_true (onlyAfterEviction_evictions.mpr hcall) fun h => hmem h.2,
      fun _ => ha.insert hl.linked hmem hinsert⟩

end Invariant

/-! ## The law of a run -/

/-- The frame's code object has no entry, or a level that `LRU_NOT_FOUND` is not. -/
def distinguishable (filterFunc : Filter) (l : Lru) (fCode : UInt64) : Bool :=
  (filterFunc fCode).traceLevel ≠ lruNotFound ∨ fCode ∉ l.keys

section Runs

variable {codes : Set UInt64} {filterFunc : Filter} {capacity : ℕ}

lemma recordedCache_step_eq_some {p p' : CacheRun × List FilterEvent} {fCode : codes} :
    (recordedCache filterFunc capacity codes).step p fCode = some p' ↔
      (cacheMachine filterFunc capacity).step p.1 fCode.1 = some p'.1 ∧
        p'.2 = recordLookup filterFunc p.1 fCode.1 p.2 := by
  show ((cacheMachine filterFunc capacity).withHistory [] (recordLookup filterFunc)).step p
    fCode.1 = _ ↔ _
  exact Machine.withHistory_step_eq_some

/-- Whatever the entries have come to be, each was stored for one of the code objects. -/
lemma cachesIn_of_reachable (hcap : 1 ≤ capacity) {p : CacheRun × List FilterEvent}
    (hp : (recordedCache filterFunc capacity codes).Reachable p) :
    CachesIn codes filterFunc p.1.lru := by
  refine hp.invariant (I := fun p => CachesIn codes filterFunc p.1.lru) (fun p hinit => ?_)
    (fun p fCode p' _ hcaches hstep => ?_)
  · rw [show p.1 = _ from hinit.1]
    exact cachesIn_create codes filterFunc hcap
  · have hnext := (recordedCache_step_eq_some.mp hstep).1
    obtain ⟨level, l', calls, hlookup, hcaches', -, hentry, -⟩ := hcaches.exists_lookup fCode.1
    simp only [cacheMachine, hlookup, Option.map_some, Option.some.injEq] at hnext
    rw [← hnext]
    refine ⟨hcaches', fun h hh => ?_⟩
    rcases hentry h hh with hnew | ⟨hold, hsame⟩
    · exact hnew ▸ fCode.2
    · rw [hsame]
      exact hcaches.code h hold

/-- **One step** of a run that has kept the calls due. -/
lemma Accounted.step (hcodes : Set.InjOn lowInt codes) (hcap : 1 ≤ capacity)
    {p p' : CacheRun × List FilterEvent} {fCode : codes}
    (hp : (recordedCache filterFunc capacity codes).Reachable p)
    (ha : Accounted p.1.lru p.2) (hdue : OnlyAfterEviction p.2)
    (hstep : (recordedCache filterFunc capacity codes).step p fCode = some p') :
    (OnlyAfterEviction p'.2 ↔ distinguishable filterFunc p.1.lru fCode = true) ∧
      (distinguishable filterFunc p.1.lru fCode = true → Accounted p'.1.lru p'.2) := by
  obtain ⟨hnext, hrecord⟩ := recordedCache_step_eq_some.mp hstep
  simp only [cacheMachine, Option.map_eq_some_iff] at hnext
  obtain ⟨⟨level, l', calls⟩, hlookup, hrun⟩ := hnext
  have hlaw := @Accounted.lookup _ _ _ _ _ hcodes ha (cachesIn_of_reachable hcap hp) fCode.2 hdue
    p.1.answers _ _ _ hlookup
  have hcond : distinguishable filterFunc p.1.lru fCode = true ↔
      ¬ ((filterFunc fCode).traceLevel = lruNotFound ∧ fCode.1 ∈ p.1.lru.keys) := by
    simp only [distinguishable, decide_eq_true_eq, ne_eq]
    tauto
  rw [hcond, hrecord, ← hrun]
  exact hlaw

/-- As long as the calls have been due, the entries are accounted for. -/
lemma accounted_of_reachable (hcodes : Set.InjOn lowInt codes) (hcap : 1 ≤ capacity)
    {p : CacheRun × List FilterEvent}
    (hp : (recordedCache filterFunc capacity codes).Reachable p)
    (hdue : OnlyAfterEviction p.2) : Accounted p.1.lru p.2 := by
  revert hdue
  refine hp.invariant (I := fun p => OnlyAfterEviction p.2 → Accounted p.1.lru p.2)
    (fun p hinit _ => ?_) (fun p fCode p' hreach ih hstep hdue' => ?_)
  · rw [show p.1 = _ from hinit.1, hinit.2]
    exact ⟨by simp [CacheRun.start], fun k => iff_of_false (not_outstanding_nil k) (by
      simp [CacheRun.start])⟩
  · have hdue : OnlyAfterEviction p.2 := by
      rw [(recordedCache_step_eq_some.mp hstep).2, recordLookup] at hdue'
      split at hdue'
      · exact hdue'.of_append.of_append
      · exact hdue'
    obtain ⟨hiff, hkeep⟩ := Accounted.step hcodes hcap hreach (ih hdue) hdue hstep
    exact hkeep (hiff.mp hdue')

end Runs

/-- **When the filter is called only after an eviction.**  Among code objects that differ in the
low halves of their addresses, every sequence of frames is looked up; and in all states it
goes through, the LRU has no two entries with one key and the filter has been called again
only after an eviction, exactly if no code object of level -1 is looked up while it has an
entry. -/
theorem filter_calls_iff (filterFunc : Filter) {codes : Set UInt64}
    (hcodes : Set.InjOn lowInt codes) {capacity : ℕ} (hcap : 1 ≤ capacity)
    (frames : List codes) :
    ∃ p, (recordedCache filterFunc capacity codes).exec (.start capacity, []) frames = some p ∧
      ((∀ pre q, pre <+: frames →
          (recordedCache filterFunc capacity codes).exec (.start capacity, []) pre = some q →
          q.1.lru.keys.Nodup ∧ OnlyAfterEviction q.2) ↔
        ((recordedCache filterFunc capacity codes).restrict
          fun q (fCode : codes) =>
            distinguishable filterFunc q.1.lru fCode = true).exec (.start capacity, []) frames =
              some p) := by
  have hstart : Caches filterFunc (CacheRun.start capacity).lru := caches_create filterFunc hcap
  obtain ⟨s, hrun, -⟩ := hstart.exists_exec capacity (frames.map fun fCode => fCode.1)
  obtain ⟨events, hrecorded⟩ : ∃ events, (recordedCache filterFunc capacity codes).exec
      (.start capacity, []) frames = some (s, events) := by
    rw [recordedCache, Machine.exec_relabel]
    exact Machine.exists_exec_withHistory hrun []
  refine ⟨(s, events), hrecorded, Machine.exec_forall_iff
    (P := fun q : CacheRun × List FilterEvent => q.1.lru.keys.Nodup ∧ OnlyAfterEviction q.2)
    (fun q fCode q' hreach hq hstep => ?_) (.init ⟨rfl, rfl⟩) ?_ hrecorded⟩
  · have ha := accounted_of_reachable hcodes hcap hreach hq.2
    obtain ⟨hiff, hkeep⟩ := Accounted.step hcodes hcap hreach ha hq.2 hstep
    exact ⟨fun h => hiff.mp h.2, fun h => ⟨(hkeep h).nodup, hiff.mpr h⟩⟩
  · exact ⟨by simp [CacheRun.start], onlyAfterEviction_nil⟩

/-- A filter that gives every code object the level -1. -/
def minusOneFilter : Filter := fun _ => .int (-1)

/-- Two code objects that take the one place of the LRU from each other. -/
def inTurn : List ({0x10, 0x20} : Set UInt64) :=
  [⟨0x10, .inl rfl⟩, ⟨0x20, .inr rfl⟩, ⟨0x10, .inl rfl⟩]

theorem filter_calls_iff_inTurn :
    ∃ p, (recordedCache minusOneFilter 1 {0x10, 0x20}).exec (.start 1, []) inTurn = some p ∧
      p.2 = [.evicted 0x20, .called 0x10, .evicted 0x10, .called 0x20, .called 0x10] ∧
      ∀ pre q, pre <+: inTurn →
        (recordedCache minusOneFilter 1 {0x10, 0x20}).exec (.start 1, []) pre = some q →
        q.1.lru.keys.Nodup ∧ OnlyAfterEviction q.2 := by
  have hcodes : Set.InjOn lowInt ({0x10, 0x20} : Set UInt64) := by
    have hfinset : Set.InjOn lowInt (({0x10, 0x20} : Finset UInt64) : Set UInt64) :=
      Finset.card_image_iff.mp (by decide)
    simpa using hfinset
  have hrun : (((recordedCache minusOneFilter 1 {0x10, 0x20}).restrict
      fun q (fCode : ({0x10, 0x20} : Set UInt64)) =>
        distinguishable minusOneFilter q.1.lru fCode = true).exec (.start 1, []) inTurn).any
          (fun p => p.2 =
            [.evicted 0x20, .called 0x10, .evicted 0x10, .called 0x20, .called 0x10]) = true := by
    decide +kernel
  obtain ⟨p, hp, hevents⟩ := (Option.any_eq_true _ _).mp hrun
  obtain ⟨p', hp', hiff⟩ := filter_calls_iff minusOneFilter hcodes (show 1 ≤ 1 from le_rfl) inTurn
  obtain rfl : p = p' := Option.some.inj ((Machine.exec_of_restrict hp).symm.trans hp')
  exact ⟨p, hp', of_decide_eq_true hevents, hiff.mpr hp⟩

/-- **A filter called twice.**  Two frames of one code object of level -1: the filter is called
for both, and the LRU has two entries with its key. -/
theorem filter_called_twice :
    ¬ ∀ (filterFunc : Filter) (codes : Set UInt64), Set.InjOn lowInt codes →
      ∀ capacity, 1 ≤ capacity → ∀ (frames : List codes) (p : CacheRun × List FilterEvent),
      (recordedCache filterFunc capacity codes).exec (.start capacity, []) frames = some p →
        p.1.lru.keys.Nodup ∧ OnlyAfterEviction p.2 := by
  intro hall
  have hrun : ((recordedCache minusOneFilter 2 {0x10}).exec (.start 2, [])
      [⟨0x10, rfl⟩, ⟨0x10, rfl⟩]).any (fun p => decide (p.1.lru.keys = [0x10, 0x10])) = true := by
    decide +kernel
  obtain ⟨p, hp, hkeys⟩ := (Option.any_eq_true _ _).mp hrun
  have hnodup := (hall minusOneFilter {0x10} (Set.injOn_singleton _ _) 2 (by decide) _ p hp).1
  rw [of_decide_eq_true hkeys] at hnodup
  exact absurd hnodup (by decide)

end InfiTracing
