import Mathlib.Data.Nat.Count
import InfiTracing.Framework.Machine

/-!
# Sending with retries

A `Sender` connects, where it is not connected, and sends one item; either may fail, and then the
whole attempt is made again, up to a number of times.  It works on a world of which nothing is
known but the laws of one attempt.

Two kinds of laws carry over from one attempt to a whole run of items.  `Delivery` is about what
the world has of the items: an item is there once if its attempt succeeded, and not at all
otherwise (`Delivery.sendAll`).  `Costs` is about time: an attempt that fails has met with a moment
of failure (`Spends`), so that an item lost costs as many of them as there were attempts
(`Costs.sendAll`).
-/

namespace InfiTracing.Framework

/-! ## Moments of failure -/

/-- From the time `t` to `t'` there are at least `n` moments of failure. -/
def Spends (fault : ℕ → Prop) [DecidablePred fault] (t t' n : ℕ) : Prop :=
  t ≤ t' ∧ Nat.count fault t + n ≤ Nat.count fault t'

section Spends

variable {fault : ℕ → Prop} [DecidablePred fault] {t t' t'' n k : ℕ}

lemma Spends.of_le (h : t ≤ t') : Spends fault t t' 0 := ⟨h, Nat.count_monotone fault h⟩

lemma Spends.trans (h : Spends fault t t' n) (h' : Spends fault t' t'' k) :
    Spends fault t t'' (n + k) := by
  refine ⟨h.1.trans h'.1, ?_⟩
  have hfirst := h.2
  have hsecond := h'.2
  omega

lemma Spends.mono (h : Spends fault t t' n) (hle : k ≤ n) : Spends fault t t' k :=
  ⟨h.1, (Nat.add_le_add_left hle _).trans h.2⟩

/-- One moment of failure. -/
lemma Spends.one (h : fault t) : Spends fault t (t + 1) 1 :=
  ⟨Nat.le_succ t, by rw [Nat.count_succ, if_pos h]⟩

end Spends

/-! ## Senders -/

/-- What connects and sends.  The `Bool` says whether it succeeded. -/
structure Sender (W F : Type*) where
  tryConnect : W → Bool × W
  send : W → F → Bool × W

namespace Sender

variable {W F : Type*} (S : Sender W F)

/-- Send an item, with so many attempts left. -/
def attempts (f : F) : ℕ → W → Bool × W
  | 0, w => (false, w)
  | n + 1, w =>
      let connected := S.tryConnect w
      if connected.1 then
        let sent := S.send connected.2 f
        if sent.1 then (true, sent.2) else attempts f n sent.2
      else
        attempts f n connected.2

/-- One item after the other.  The list keeps those that were sent. -/
def sendAll (n : ℕ) : W → List F → List F × W
  | w, [] => ([], w)
  | w, f :: fs =>
      let first := S.attempts f n w
      let rest := sendAll n first.2 fs
      (if first.1 then f :: rest.1 else rest.1, rest.2)

lemma sendAll_sublist (n : ℕ) (w : W) (fs : List F) : (S.sendAll n w fs).1.Sublist fs := by
  induction fs generalizing w with
  | nil => exact List.Sublist.slnil
  | cons f fs ih =>
      simp only [sendAll]
      split_ifs
      · exact (ih _).cons_cons f
      · exact (ih _).cons f

/-! ## What is delivered -/

/-- The laws of one attempt for what the world has of the items.  `Ready` is the state of a world
that is connected, and `Good` the items the laws are about. -/
structure Delivery {M : Type*} (S : Sender W F) (Ready : W → Prop) (Good : F → Prop)
    (message : F → M) (Inv : W → List M → Prop) : Prop where
  connect : ∀ {w ms}, Inv w ms → Inv (S.tryConnect w).2 ms
  ready : ∀ {w ms}, Inv w ms → (S.tryConnect w).1 = true → Ready (S.tryConnect w).2
  send : ∀ {w ms f}, Inv w ms → Ready w → Good f →
    Inv (S.send w f).2 (if (S.send w f).1 then ms ++ [message f] else ms)

section Delivery

variable {S} {M : Type*} {Ready : W → Prop} {Good : F → Prop} {message : F → M}
  {Inv : W → List M → Prop} {ms : List M} {w : W}

/-- An item is delivered once, by the attempt that ends the loop, or not at all. -/
lemma Delivery.attempts (hS : Delivery S Ready Good message Inv) (h : Inv w ms) {f : F}
    (hf : Good f) (n : ℕ) :
    Inv (S.attempts f n w).2 (if (S.attempts f n w).1 then ms ++ [message f] else ms) := by
  induction n generalizing w with
  | zero => exact h
  | succ n ih =>
      have hconnected := hS.connect h
      unfold Sender.attempts
      by_cases hconn : (S.tryConnect w).1 = true
      · simp only [if_pos hconn]
        have hsend := hS.send hconnected (hS.ready h hconn) hf
        by_cases hsent : (S.send (S.tryConnect w).2 f).1 = true
        · rw [if_pos hsent] at hsend
          simpa only [if_pos hsent, if_true] using hsend
        · rw [if_neg hsent] at hsend
          simpa only [if_neg hsent] using ih hsend
      · simpa only [if_neg hconn] using ih hconnected

/-- **A run delivers what it says it sent**, in order. -/
theorem Delivery.sendAll (hS : Delivery S Ready Good message Inv) {fs : List F}
    (hfs : ∀ f ∈ fs, Good f) (h : Inv w ms) (n : ℕ) :
    Inv (S.sendAll n w fs).2 (ms ++ (S.sendAll n w fs).1.map message) := by
  induction fs generalizing w ms with
  | nil => simpa [Sender.sendAll] using h
  | cons f fs ih =>
      obtain ⟨hf, hrest⟩ := List.forall_mem_cons.mp hfs
      have hfirst := hS.attempts h hf n
      simp only [Sender.sendAll]
      by_cases hsent : (S.attempts f n w).1 = true
      · rw [if_pos hsent] at hfirst
        simpa only [if_pos hsent, List.map_cons, List.append_assoc, List.singleton_append]
          using ih hrest hfirst
      · rw [if_neg hsent] at hfirst
        simpa only [if_neg hsent] using ih hrest hfirst

end Delivery

/-! ## What it costs -/

/-- The laws of one attempt for the moments of failure. -/
structure Costs {M : Type*} (S : Sender W F) (clock : W → ℕ) (fault : ℕ → Prop)
    [DecidablePred fault] (Ready : W → Prop) (Good : F → Prop) (Inv : W → List M → Prop) :
    Prop where
  connect : ∀ w, Spends fault (clock w) (clock (S.tryConnect w).2)
    (if (S.tryConnect w).1 then 0 else 1)
  send : ∀ {w ms f}, Inv w ms → Ready w → Good f →
    Spends fault (clock w) (clock (S.send w f).2) (if (S.send w f).1 then 0 else 1)

section Costs

variable {S} {M : Type*} {clock : W → ℕ} {fault : ℕ → Prop} [DecidablePred fault]
  {Ready : W → Prop} {Good : F → Prop} {message : F → M} {Inv : W → List M → Prop}
  {ms : List M} {w : W}

/-- Every attempt that is used up has met with a failure of its own. -/
lemma Costs.attempts (hC : Costs S clock fault Ready Good Inv)
    (hS : Delivery S Ready Good message Inv) (h : Inv w ms) {f : F} (hf : Good f) (n : ℕ) :
    Spends fault (clock w) (clock (S.attempts f n w).2)
      (if (S.attempts f n w).1 then 0 else n) := by
  induction n generalizing w with
  | zero => exact Spends.of_le le_rfl
  | succ n ih =>
      have hconnected := hC.connect w
      have hinv := hS.connect h
      unfold Sender.attempts
      by_cases hconn : (S.tryConnect w).1 = true
      · simp only [if_pos hconn] at hconnected ⊢
        have hsend := hC.send hinv (hS.ready h hconn) hf
        have hnext := hS.send hinv (hS.ready h hconn) hf
        by_cases hsent : (S.send (S.tryConnect w).2 f).1 = true
        · simp only [if_pos hsent, if_true] at hsend ⊢
          exact hconnected.trans hsend
        · simp only [if_neg hsent] at hsend hnext ⊢
          exact ((hconnected.trans hsend).trans (ih hnext)).mono (by split_ifs <;> omega)
      · simp only [if_neg hconn] at hconnected ⊢
        exact (hconnected.trans (ih hinv)).mono (by split_ifs <;> omega)

/-- **What a run loses.**  An item that is lost has taken a moment of failure for each attempt. -/
theorem Costs.sendAll (hC : Costs S clock fault Ready Good Inv)
    (hS : Delivery S Ready Good message Inv) {fs : List F} (hfs : ∀ f ∈ fs, Good f)
    (h : Inv w ms) (n : ℕ) :
    Spends fault (clock w) (clock (S.sendAll n w fs).2)
      (n * (fs.length - (S.sendAll n w fs).1.length)) := by
  induction fs generalizing w ms with
  | nil => exact (Spends.of_le le_rfl).mono (by simp)
  | cons f fs ih =>
      obtain ⟨hf, hrest⟩ := List.forall_mem_cons.mp hfs
      have hfirst := hC.attempts hS h hf n
      have hnext := hS.attempts h hf n
      have hle := (S.sendAll_sublist n (S.attempts f n w).2 fs).length_le
      simp only [Sender.sendAll]
      refine (hfirst.trans (ih hrest hnext)).mono ?_
      split_ifs
      · simp only [List.length_cons, Nat.add_sub_add_right, Nat.zero_add, le_refl]
      · rw [List.length_cons, Nat.succ_sub hle, Nat.mul_succ]
        omega

end Costs

end Sender

end InfiTracing.Framework
