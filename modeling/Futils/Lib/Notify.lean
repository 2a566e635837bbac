import Mathlib.Tactic.Common

/-!
# Notification counters

A producer puts an item in a queue and then, in a second step, a token in a channel; a consumer
that finds the queue non-empty takes a token, if there is one, and then an item.  The two steps of
each party are not atomic.  Of interest are two relations between the numbers: `Covered`, there is
a token for every item, counting the steps that are half done, and `Balanced`, there are no others.
-/

namespace Futils.Lib.Notify

/-- The items in the queue, the tokens in the channel, the producers between their two steps and
the consumers between theirs. -/
structure Counters where
  queued : ℕ
  tokens : ℕ
  pending : ℕ
  taken : ℕ

/-- What a step does. -/
inductive Kind
  | idle | enqueue | notify | drop | take | miss | dequeue
  deriving DecidableEq

/-- The steps, for a channel that holds `cap` tokens (`none`: any number). -/
inductive Step (cap : Option ℕ) : Kind → Counters → Counters → Prop
  | idle {c} : Step cap .idle c c
  | enqueue {q t k} : Step cap .enqueue ⟨q, t, 0, k⟩ ⟨q + 1, t, 1, k⟩
  | notify {q t k} : Step cap .notify ⟨q, t, 1, k⟩ ⟨q, t + 1, 0, k⟩
  /-- The channel is full and the token is lost. -/
  | drop {q t k} : (∃ n, cap = some n ∧ n ≤ t) → Step cap .drop ⟨q, t, 1, k⟩ ⟨q, t, 0, k⟩
  | take {q t p} : Step cap .take ⟨q, t + 1, p, 0⟩ ⟨q, t, p, 1⟩
  /-- The channel is empty and the consumer goes on without a token. -/
  | miss {q p} : Step cap .miss ⟨q, 0, p, 0⟩ ⟨q, 0, p, 1⟩
  | dequeue {q t p} : Step cap .dequeue ⟨q + 1, t, p, 1⟩ ⟨q, t, p, 0⟩

/-- There is a token for every item. -/
def Covered (c : Counters) : Prop := c.queued ≤ c.tokens + c.pending + c.taken

/-- There is a token for every item, and no other. -/
def Balanced (c : Counters) : Prop := c.tokens + c.pending + c.taken = c.queued

/-- **No item is left without a token** when the channel holds as many as the queue. -/
theorem Step.covered {cap : Option ℕ} {k : Kind} {c c' : Counters} (h : Step cap k c c')
    (hcap : ∀ n, cap = some n → c.queued ≤ n) (hc : Covered c) : Covered c' := by
  unfold Covered at *
  cases h with
  | idle => exact hc
  | drop hfull =>
    obtain ⟨n, hn, hle⟩ := hfull
    have := hcap n hn
    simp only at *
    omega
  | _ => simp only at *; omega

/-- **No token is left without an item** when the channel holds any number, unless a consumer goes
on without one. -/
theorem Step.balanced {k : Kind} {c c' : Counters} (h : Step none k c c') (hmiss : k ≠ .miss)
    (hc : Balanced c) : Balanced c' := by
  unfold Balanced at *
  cases h with
  | idle => exact hc
  | drop hfull =>
    obtain ⟨n, hn, -⟩ := hfull
    cases hn
  | miss => exact absurd rfl hmiss
  | _ => simp only at *; omega

end Futils.Lib.Notify
