import Mathlib.Data.List.Nodup
import SchemaHistory.Log.Delivery
import SchemaHistory.Proofs.Collections

/-!
# The answers to appends

An answer reaches the slot that it is meant for and no other. A slot that is added leaves
the answers that were there, and has none of its own.
-/

namespace SchemaHistory

namespace Deliveries

variable {d : Deliveries} {acks : List (Ticket × Ack)} {t : Ticket}

theorem size_fillAll (d : Deliveries) (acks : List (Ticket × Ack)) :
    (d.fillAll acks).size = d.size := by
  induction acks generalizing d with
  | nil => rfl
  | cons a acks ih => exact (ih _).trans (Registry.size_modify _ _ _)

theorem answer?_fill (d : Deliveries) (t u : Ticket) (ack : Ack) :
    (d.fill t ack).answer? u = if t = u ∧ u < d.size then some ack else d.answer? u := by
  rw [answer?, fill, Registry.set, Registry.get?_modify]
  by_cases ht : t = u
  · rw [if_pos ht]
    by_cases hu : u < d.size
    · obtain ⟨a, ha⟩ : ∃ a, d.get? u = some a := ⟨_, Array.getElem?_eq_some_iff.mpr ⟨hu, rfl⟩⟩
      rw [if_pos ⟨ht, hu⟩, ha]
      rfl
    · have hnone : d.get? u = none := Array.getElem?_eq_none_iff.mpr (Nat.le_of_not_lt hu)
      rw [if_neg fun h => hu h.2, answer?, hnone]
      rfl
  · rw [if_neg ht, if_neg fun h => ht h.1]
    rfl

/-- Answers to others do not matter. -/
theorem answer?_fillAll_other (h : ∀ a, (t, a) ∉ acks) :
    (d.fillAll acks).answer? t = d.answer? t := by
  induction acks generalizing d with
  | nil => rfl
  | cons ack acks ih =>
      obtain ⟨u, a⟩ := ack
      have hne : u ≠ t := by
        rintro rfl
        exact h a (by simp)
      show ((d.fill u a).fillAll acks).answer? t = _
      rw [ih fun b hb => h b (List.mem_cons_of_mem _ hb), answer?_fill, if_neg fun hu => hne hu.1]

/-- An answer that is the only one comes. -/
theorem answer?_fillAll_same {a : Ack} (ht : t < d.size) (hmem : (t, a) ∈ acks)
    (hall : ∀ b, (t, b) ∈ acks → b = a) : (d.fillAll acks).answer? t = some a := by
  induction acks generalizing d with
  | nil => cases hmem
  | cons ack acks ih =>
      obtain ⟨u, b⟩ := ack
      show ((d.fill u b).fillAll acks).answer? t = _
      by_cases hrest : ∃ c, (t, c) ∈ acks
      · obtain ⟨c, hc⟩ := hrest
        obtain rfl := hall c (List.mem_cons_of_mem _ hc)
        exact ih ((Registry.size_modify _ _ _).symm ▸ ht) hc
          fun c' hc' => hall c' (List.mem_cons_of_mem _ hc')
      · have hfirst : (t, a) = (u, b) :=
          (List.mem_cons.mp hmem).resolve_right fun hmem => hrest ⟨a, hmem⟩
        cases hfirst
        rw [answer?_fillAll_other fun c hc => hrest ⟨c, hc⟩, answer?_fill, if_pos ⟨rfl, ht⟩]

theorem answer?_expect (d : Deliveries) (t : Ticket) : d.expect.answer? t = d.answer? t := by
  rw [answer?, expect, Registry.get?_add]
  split
  · rename_i ht
    rw [ht, answer?, Registry.get?_size]
    rfl
  · rfl

theorem answer?_resolve (d : Deliveries) (ack : Ack) (t : Ticket) :
    (d.resolve ack).answer? t = if t = d.size then some ack else d.answer? t := by
  rw [answer?, resolve, Registry.get?_add]
  split
  · rfl
  · rfl

/-- Only a slot that was given out has an answer. -/
theorem lt_size_of_answer? {ack : Ack} (h : d.answer? t = some ack) : t < d.size := by
  cases hslot : d.get? t with
  | none =>
      rw [answer?, hslot] at h
      cases h
  | some slot => exact Registry.lt_size_of_get? hslot

theorem answer?_next (d : Deliveries) : d.answer? d.next = none := by
  rw [answer?, next, Registry.get?_size]
  rfl

/-! ## The slots without an answer -/

/-- The slots without an answer, in the order in which they were given out. -/
def unanswered (d : Deliveries) : List Ticket :=
  (List.range d.size).filter fun t => (d.answer? t).isNone

theorem mem_unanswered : t ∈ d.unanswered ↔ t < d.size ∧ d.answer? t = none := by
  rw [unanswered, List.mem_filter, List.mem_range, Option.isNone_iff_eq_none]

theorem nodup_unanswered (d : Deliveries) : d.unanswered.Nodup := List.nodup_range.filter _

/-- A slot that is given out with its answer is not waited for. -/
theorem unanswered_resolve (d : Deliveries) (ack : Ack) :
    (d.resolve ack).unanswered = d.unanswered := by
  have hsize : (d.resolve ack).size = d.size + 1 := Registry.size_add d (some ack)
  have hold : ∀ t ∈ List.range d.size,
      ((d.resolve ack).answer? t).isNone = (d.answer? t).isNone := by
    intro t ht
    rw [answer?_resolve, if_neg (Nat.ne_of_lt (List.mem_range.mp ht))]
  have hnew : ((d.resolve ack).answer? d.size).isNone = false := by
    rw [answer?_resolve, if_pos rfl]
    rfl
  rw [unanswered, hsize, List.range_succ, List.filter_append, List.filter_congr hold,
    List.filter_singleton, hnew]
  exact List.append_nil _

/-- One that is given out without is the last to be waited for. -/
theorem unanswered_expect (d : Deliveries) : d.expect.unanswered = d.unanswered ++ [d.next] := by
  have hsize : d.expect.size = d.size + 1 := Registry.size_add d none
  have hold : ∀ t ∈ List.range d.size, (d.expect.answer? t).isNone = (d.answer? t).isNone := by
    intro t _
    rw [answer?_expect]
  have hnew : (d.expect.answer? d.size).isNone = true := by
    rw [answer?_expect, show d.size = d.next from rfl, answer?_next]
    rfl
  rw [unanswered, hsize, List.range_succ, List.filter_append, List.filter_congr hold,
    List.filter_singleton, hnew]
  rfl

end Deliveries

end SchemaHistory
