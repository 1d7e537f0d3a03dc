import InfiTracing.Serialize.Agreement

/-!
# `fast_repr` terminates

There is no visited set, so on a container that contains itself only the available space
stops the recursion: the opening bracket takes a byte, limits only lower the space, and what a
container takes back by rewinding it never gets beyond its opening bracket.

`guarded n` refuses a call with `n` bytes available or more.  A rendering that goes the same
way with the guard as without it makes no such call, and `fastReprBody_guarded` says so of
every container with its own available space as `n`.
-/

namespace InfiTracing.Serialize

open Framework

/-! ## More depth changes nothing -/

section EndsAs

variable {repr repr' : Pointer → Render Bool}

lemma limited_endsAs {x y : Render Bool} (h : EndsAs x y) (size : ℕ) :
    EndsAs (limited size x) (limited size y) :=
  .bind (.refl _) fun _ => .bind h fun _ => .refl _

lemma listElement_endsAs (h : ∀ ptr, EndsAs (repr ptr) (repr' ptr)) (i : ℕ) (item : Pointer) :
    EndsAs (listElement repr i item) (listElement repr' i item) :=
  limited_endsAs (.bind (.refl _) fun _ => .ite (h item) (.refl _)) _

lemma dictItem_endsAs (h : ∀ ptr, EndsAs (repr ptr) (repr' ptr)) (i : ℕ)
    (item : Pointer × Pointer) : EndsAs (dictItem repr i item) (dictItem repr' i item) := by
  refine .bind (.refl _) fun _ => .ite ?_ (.refl _)
  refine .bind (limited_endsAs (h item.1) _) fun _ => .ite ?_ (.refl _)
  exact .bind (.refl _) fun _ => .ite (limited_endsAs (h item.2) _) (.refl _)

lemma containerLoop_endsAs {χ : Type} {part part' : ℕ → χ → Render Bool}
    (h : ∀ i item, EndsAs (part i item) (part' i item)) (t : ℕ) (items : List χ) (i ofs : ℕ) :
    EndsAs (containerLoop part t i ofs items) (containerLoop part' t i ofs items) := by
  induction items generalizing i ofs with
  | nil => exact .refl _
  | cons item items ih =>
      exact .bind (.refl _) fun ofs' => .bind (h i item) fun _ => .ite (ih (i + 1) ofs') (.refl _)

lemma container_endsAs {loop loop' : ℕ → Render LoopEnd} (h : ∀ t, EndsAs (loop t) (loop' t))
    (opening closing : CString) (len : ℕ) :
    EndsAs (container opening closing len loop) (container opening closing len loop') :=
  .bind (.refl _) fun _ => .ite (.refl _) <|
    .bind (.refl _) fun _ => .bind (h _) fun _ => .refl _

variable (py : CPython) (heap : Heap)

lemma fastReprBody_endsAs (h : ∀ ptr, EndsAs (repr ptr) (repr' ptr)) (ptr : Pointer) :
    EndsAs (fastReprBody py heap repr ptr) (fastReprBody py heap repr' ptr) := by
  have hdict (items : List (Pointer × Pointer)) :
      EndsAs (dictRepr repr items) (dictRepr repr' items) :=
    container_endsAs (fun t => containerLoop_endsAs (dictItem_endsAs h) t _ 0 0) _ _ _
  have hlist (isList : Bool) (items : List Pointer) :
      EndsAs (listOrTupleRepr repr isList items) (listOrTupleRepr repr' isList items) :=
    container_endsAs (fun t => containerLoop_endsAs (listElement_endsAs h) t _ 0 0) _ _ _
  refine .ite (.refl _) ?_
  cases heap ptr with
  | dict exact type items =>
      exact .ite (hdict items) (.bind (.refl _) fun _ => .ite (hdict items) (.refl _))
  | list items => exact hlist true items
  | tuple items => exact hlist false items
  | _ => exact .refl _

lemma fastRepr_endsAs {fuel fuel' : ℕ} (h : fuel ≤ fuel') (ptr : Pointer) :
    EndsAs (fastRepr py heap fuel ptr) (fastRepr py heap fuel' ptr) := by
  induction fuel generalizing fuel' ptr with
  | zero => exact fun _ _ hr => absurd hr (by simp [fastRepr])
  | succ fuel ih =>
      obtain ⟨fuel', rfl⟩ := Nat.exists_eq_add_one_of_ne_zero (by omega : fuel' ≠ 0)
      exact fastReprBody_endsAs py heap (fun ptr => ih (by omega) ptr) ptr

end EndsAs

/-! ## Nested calls -/

/-- `repr`, where a call with `n` bytes available or more has no result. -/
def guarded (n : ℤ) (repr : Pointer → Render Bool) : Pointer → Render Bool :=
  fun ptr m => if m.availSize < n then repr ptr m else none

lemma guarded_endsAs (n : ℤ) (repr : Pointer → Render Bool) (ptr : Pointer) :
    EndsAs (guarded n repr ptr) (repr ptr) := by
  intro m r h
  unfold guarded at h
  split at h
  · exact h
  · simp at h

lemma guarded_steady {n : ℤ} {fuel : ℤ} {repr : Pointer → Render Bool}
    (h : SteadyBelow fuel repr) (hn : n ≤ fuel) : SteadyBelow n (guarded n repr) := by
  intro ptr a b hab hlt
  have hlt' : b.availSize < n := hab.agree.availSize_eq ▸ hlt
  obtain ⟨v, a', b', ha, hb, hpost⟩ := h ptr hab (hlt.trans_le hn)
  exact ⟨v, a', b', (if_pos hlt).trans ha, (if_pos hlt').trans hb, hpost⟩

lemma alike_self {m : TraceMessage} (hm : m.writeIndex ≤ m.limitIndex) : Alike m m :=
  ⟨⟨rfl, rfl, rfl, hm, rfl⟩, fun _ => rfl⟩

variable (py : CPython) (heap : Heap) {m : TraceMessage}

/-- A container makes no call with as much space as it has itself. -/
lemma fastReprBody_guarded (hm : m.writeIndex ≤ m.limitIndex) {fuel : ℕ}
    (hfuel : m.availSize ≤ fuel) (ptr : Pointer) :
    fastReprBody py heap (guarded m.availSize (fastRepr py heap fuel)) ptr m =
      fastRepr py heap (fuel + 1) ptr m := by
  have hguarded := guarded_steady (fastRepr_steady py heap fuel) hfuel
  have hsome := (couples_fastReprBody py heap hguarded ptr (alike_self hm) le_rfl).isSome
  exact ((fastReprBody_endsAs py heap (guarded_endsAs _ _) ptr).eq hsome).symm

/-! ## The law -/

/-- Lists, tuples and exact dicts. -/
def PyObject.IsContainer : PyObject → Prop
  | .list _ => True
  | .tuple _ => True
  | .dict exact _ _ => exact = true
  | _ => False

/-- What one container appends. -/
lemma fastRepr_container_le (hm : m.writeIndex ≤ m.limitIndex) {fuel : ℕ}
    (hfuel : m.availSize < fuel) {ptr : Pointer} (hptr : (heap ptr).IsContainer) :
    Couples (fastRepr py heap fuel ptr) m m fun _ m' _ =>
      m'.writeIndex ≤ m.writeIndex + maxContainerLen := by
  have hself := alike_self hm
  have havail : 0 ≤ m.availSize := (TraceMessage.Extends.refl hm).availSize_le.1
  obtain ⟨fuel, rfl⟩ := Nat.exists_eq_add_one_of_ne_zero (by omega : fuel ≠ 0)
  have hrepr := fastRepr_steady py heap fuel
  have hle : m.availSize ≤ fuel := by push_cast at hfuel; omega
  refine Couples.ite (fun _ => ?_) fun _ => ?_
  · refine (couples_write hself.agree _).mono ?_
    rintro _ m' _ ⟨-, hindex⟩
    rw [hindex]
    exact Nat.add_le_add_left ((min_le_left _ _).trans (by decide)) _
  · cases hobj : heap ptr with
    | list items =>
        exact (couples_listOrTupleRepr hrepr true items hself hle).mono fun _ _ _ h => h.2
    | tuple items =>
        exact (couples_listOrTupleRepr hrepr false items hself hle).mono fun _ _ _ h => h.2
    | dict exact type items =>
        rw [hobj] at hptr
        refine Couples.ite (fun _ => ?_) fun hexact => absurd hptr hexact
        exact (couples_dictRepr hrepr items hself hle).mono fun _ _ _ h => h.2
    | _ => exact absurd hptr (by rw [hobj]; exact id)

/-- **`fast_repr` terminates** on every graph, in every state of the message, and its result does
not depend on how deep it may go; a container calls it for its parts only with fewer bytes
available than it has itself; and a list, a tuple or an exact dict appends at most
`maxContainerLen` bytes, and no more than are available. -/
theorem fastRepr_terminates (hm : m.writeIndex ≤ m.limitIndex) (ptr : Pointer) :
    ∃ ok m', (∀ fuel : ℕ, m.availSize < fuel → fastRepr py heap fuel ptr m = some (ok, m')) ∧
      (∀ fuel : ℕ, m.availSize ≤ fuel →
        fastReprBody py heap (guarded m.availSize (fastRepr py heap fuel)) ptr m =
          some (ok, m')) ∧
      ((heap ptr).IsContainer →
        m'.writeIndex ≤ m.writeIndex + min m.availSize.toNat maxContainerLen) := by
  have havail : 0 ≤ m.availSize := (TraceMessage.Extends.refl hm).availSize_le.1
  have hfuel : m.availSize < (m.availSize.toNat + 1 : ℕ) := by omega
  obtain ⟨ok, m', _, hrun, _, hpost⟩ :=
    fastRepr_steady py heap (m.availSize.toNat + 1) ptr (alike_self hm) hfuel
  have hall (fuel : ℕ) (h : m.availSize < fuel) :
      fastRepr py heap fuel ptr m = some (ok, m') :=
    fastRepr_endsAs py heap (by omega) ptr m _ hrun
  refine ⟨ok, m', hall, fun fuel h => ?_, fun hcontainer => ?_⟩
  · rw [fastReprBody_guarded py heap hm h, hall (fuel + 1) (by push_cast; omega)]
  · obtain ⟨_, m₁, _, hrun₁, -, hle⟩ := fastRepr_container_le py heap hm hfuel hcontainer
    obtain rfl : m₁ = m' := (Prod.mk.inj (Option.some.inj (hrun₁.symm.trans hrun))).2
    have hwithin := hpost.left.within
    rw [hpost.left.limitIndex] at hwithin
    unfold TraceMessage.availSize
    omega

/-- A graph whose one list contains itself twice. -/
def selfContaining : Heap
  | 1 => .list [1, 1]
  | _ => .pyNone

/-- CPython's texts of strings of letters and digits, of integers, and of the float 0. -/
def plainCPython : CPython where
  stringRepr bytes := CString.literal "'" ++ CString.ofBuffer bytes ++ CString.literal "'"
  unicodeRepr units :=
    CString.literal "u'" ++ CString.ofBuffer (units.map UInt32.toUInt8) ++ CString.literal "'"
  longFormat value := CString.decimal value
  floatFormat _ := CString.literal "0"

/-- A message of 40 bytes, all of them stale, after `recycle`. -/
def staleMessage (stale : UInt8) : TraceMessage := TraceMessage.empty.realloc (fun _ => stale) 40

theorem fastRepr_terminates_selfContaining :
    ∃ ok m', ∀ fuel : ℕ, (staleMessage 120).availSize < fuel →
      fastRepr plainCPython selfContaining fuel 1 (staleMessage 120) = some (ok, m') := by
  obtain ⟨ok, m', hall, -⟩ :=
    @fastRepr_terminates plainCPython selfContaining (staleMessage 120) (by decide) 1
  exact ⟨ok, m', hall⟩

end InfiTracing.Serialize
