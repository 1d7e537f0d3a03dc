import InfiTracing.Framework.Numerals
import Mathlib.Data.List.Infix

/-!
# Octet counting

The framing `MSG-LEN SP MSG` of a byte stream: the length of a message in decimal, a space,
and the bytes of the message, which may be any bytes at all.

The decoder reads a stream byte by byte.  Its state says what it expects next (`Phase`), and a
byte either moves it on or completes a message.  It is strict: a length has no leading zero
and nothing but digits, and after a byte that fits nowhere the decoder is `broken`.

`decode_frames` is the law of the framing: a stream of whole frames, cut off anywhere in one
more frame, decodes to exactly the messages of the whole frames.
-/

namespace InfiTracing.Framework.OctetCounting

/-- A message on the wire. -/
abbrev Message := List UInt8

/-- `MSG-LEN SP MSG`. -/
def frame (m : Message) : List UInt8 := numeral 10 m.length ++ 32 :: m

/-- A proper prefix of the frame of some message. -/
def Torn (p : List UInt8) : Prop := ∃ m : Message, m ≠ [] ∧ p <+: frame m ∧ p ≠ frame m

lemma torn_nil : Torn [] := ⟨[0], by simp, List.nil_prefix, by simp [frame]⟩

/-! ## The decoder -/

/-- What the decoder expects next. -/
inductive Phase where
  /-- the first digit of a length -/
  | start
  /-- another digit of a length that is `n` so far, or the space -/
  | length (n : ℕ)
  /-- `missing` more bytes of the message that begins with `got` -/
  | body (missing : ℕ) (got : Message)
  /-- nothing: the stream is not octet counted -/
  | broken
  deriving Repr, DecidableEq

/-- One byte: the next phase, and the message it completes. -/
def Phase.feed : Phase → UInt8 → Phase × Option Message
  | start, c => if 49 ≤ c ∧ c ≤ 57 then (length (c.toNat - 48), none) else (broken, none)
  | length n, c =>
      if c = 32 then (body n [], none)
      else if 48 ≤ c ∧ c ≤ 57 then (length (10 * n + (c.toNat - 48)), none)
      else (broken, none)
  | body missing got, c =>
      if missing ≤ 1 then (start, some (got ++ [c])) else (body (missing - 1) (got ++ [c]), none)
  | broken, _ => (broken, none)

/-- A stretch of bytes: the phase after it, and the messages completed in it. -/
def Phase.run : Phase → List UInt8 → Phase × List Message
  | p, [] => (p, [])
  | p, c :: cs =>
      let r := p.feed c
      let rest := r.1.run cs
      (rest.1, r.2.toList ++ rest.2)

/-- The messages of a stream. -/
def decode (bytes : List UInt8) : List Message := (Phase.start.run bytes).2

/-! ## What the decoder makes of a frame -/

lemma Phase.run_append (p : Phase) (xs ys : List UInt8) :
    p.run (xs ++ ys) = (((p.run xs).1.run ys).1, (p.run xs).2 ++ ((p.run xs).1.run ys).2) := by
  induction xs generalizing p with
  | nil => rfl
  | cons c cs ih =>
      simp only [List.cons_append, Phase.run, ih, List.append_assoc]

lemma Phase.run_start_digit {d : ℕ} (h : 0 < d) (hlt : d < 10) :
    start.run [digitByte d] = (length d, []) := by
  interval_cases d <;> rfl

lemma Phase.run_length_digit {n d : ℕ} (h : d < 10) :
    (length n).run [digitByte d] = (length (10 * n + d), []) := by
  have hval : (digitByte d).toNat - 48 = d := by rw [toNat_digitByte h]; omega
  have hspace : digitByte d ≠ 32 := by interval_cases d <;> decide
  have hdigit : 48 ≤ digitByte d ∧ digitByte d ≤ 57 := by interval_cases d <;> decide
  simp only [Phase.run, Phase.feed, if_neg hspace, if_pos hdigit, hval, Option.toList_none,
    List.append_nil]

/-- The decoder reads the decimal text of a positive number as that number. -/
lemma Phase.run_numeral {n : ℕ} (hn : 0 < n) : start.run (numeral 10 n) = (length n, []) := by
  induction n using Nat.strong_induction_on with
  | _ n ih =>
      rcases lt_or_ge n 10 with hlt | hge
      · rw [numeral_of_lt hlt]
        exact run_start_digit hn hlt
      · have hquot : start.run (numeral 10 (n / 10)) = (length (n / 10), []) :=
          ih (n / 10) (by omega) (by omega)
        rw [numeral_of_le (by norm_num) hge, Phase.run_append, hquot,
          run_length_digit (Nat.mod_lt n (by norm_num)), Nat.div_add_mod]
        rfl

/-- Fewer bytes than are missing complete nothing. -/
lemma Phase.run_body_of_lt {k : ℕ} {got q : Message} (h : q.length < k) :
    (body k got).run q = (body (k - q.length) (got ++ q), []) := by
  induction q generalizing k got with
  | nil => simp [Phase.run]
  | cons c q ih =>
      rw [List.length_cons] at h
      have hk : ¬ k ≤ 1 := by omega
      have hrest : (body (k - 1) (got ++ [c])).run q =
          (body (k - 1 - q.length) (got ++ [c] ++ q), []) := ih (by omega)
      simp only [Phase.run, Phase.feed, if_neg hk, hrest, List.length_cons, List.append_assoc,
        List.cons_append, List.nil_append, Option.toList_none]
      rw [show k - 1 - q.length = k - (q.length + 1) by omega]

lemma Phase.run_body {m : Message} (hm : m ≠ []) :
    (body m.length []).run m = (start, [m]) := by
  obtain ⟨q, c, rfl⟩ := List.eq_nil_or_concat m |>.resolve_left hm
  have hlen : (q ++ [c]).length - q.length = 1 := by simp
  rw [List.concat_eq_append, Phase.run_append, run_body_of_lt (by simp), hlen]
  rfl

/-- The part of a frame before the message. -/
lemma Phase.run_header {n : ℕ} (hn : 0 < n) :
    start.run (numeral 10 n ++ [32]) = (body n [], []) := by
  rw [Phase.run_append, run_numeral hn]
  rfl

lemma frame_eq (m : Message) : frame m = (numeral 10 m.length ++ [32]) ++ m := by
  simp [frame]

/-- A whole frame completes its message and nothing else. -/
theorem Phase.run_frame {m : Message} (hm : m ≠ []) : start.run (frame m) = (start, [m]) := by
  rw [frame_eq, Phase.run_append, run_header (List.length_pos_iff.mpr hm), run_body hm]
  rfl

/-- A torn frame completes nothing. -/
theorem Torn.run_eq_nil {p : List UInt8} (h : Torn p) : (Phase.start.run p).2 = [] := by
  obtain ⟨m, hm, hpre, hne⟩ := h
  have hheader := Phase.run_header (List.length_pos_iff.mpr hm)
  rw [frame_eq] at hpre hne
  rcases List.prefix_or_prefix_of_prefix hpre (List.prefix_append _ m) with hcut | ⟨q, rfl⟩
  · -- the stream ends inside the header, and no part of a header completes a message
    obtain ⟨rest, hrest⟩ := hcut
    rw [← hrest, Phase.run_append] at hheader
    exact (List.append_eq_nil_iff.mp (Prod.mk.inj hheader).2).1
  · -- the stream ends inside the message
    have hq : q <+: m := (List.prefix_append_right_inj _).mp hpre
    have hlt : q.length < m.length := by
      refine lt_of_le_of_ne hq.length_le fun heq => hne ?_
      rw [hq.eq_of_length heq]
    rw [Phase.run_append, hheader, Phase.run_body_of_lt hlt]
    rfl

/-! ## Streams of frames -/

lemma Phase.run_frames {ms : List Message} (hms : [] ∉ ms) :
    start.run (ms.flatMap frame) = (start, ms) := by
  induction ms with
  | nil => rfl
  | cons m ms ih =>
      have hm : m ≠ [] := (List.ne_of_not_mem_cons hms).symm
      rw [List.flatMap_cons, Phase.run_append, run_frame hm, ih (List.not_mem_of_not_mem_cons hms)]
      rfl

/-- The stream carries the messages `ms`: their frames, and then at most one torn frame. -/
def Carries (stream : List UInt8) (ms : List Message) : Prop :=
  [] ∉ ms ∧ ∃ p, Torn p ∧ stream = ms.flatMap frame ++ p

/-- **The law of the framing**: a stream decodes to the messages it carries. -/
theorem Carries.decode_eq {stream : List UInt8} {ms : List Message} (h : Carries stream ms) :
    decode stream = ms := by
  obtain ⟨hms, p, hp, rfl⟩ := h
  rw [decode, Phase.run_append, Phase.run_frames hms, hp.run_eq_nil, List.append_nil]

lemma carries_frames {ms : List Message} (hms : [] ∉ ms) : Carries (ms.flatMap frame) ms :=
  ⟨hms, [], torn_nil, by simp⟩

lemma exists_carries_of_mem {streams : List (List UInt8)} {mss : List (List Message)}
    (h : List.Forall₂ Carries streams mss) {stream : List UInt8} (hmem : stream ∈ streams) :
    ∃ ms, Carries stream ms := by
  induction h with
  | nil => exact absurd hmem List.not_mem_nil
  | cons hd _ ih =>
      rcases List.mem_cons.mp hmem with rfl | hrest
      · exact ⟨_, hd⟩
      · exact ih hrest

/-- Several streams, read one after the other. -/
theorem decode_streams {streams : List (List UInt8)} {mss : List (List Message)}
    (h : List.Forall₂ Carries streams mss) : streams.flatMap decode = mss.flatten := by
  induction h with
  | nil => rfl
  | cons hd _ ih => rw [List.flatMap_cons, List.flatten_cons, hd.decode_eq, ih]

end InfiTracing.Framework.OctetCounting
