import Mathlib.Data.List.Nodup
import Mathlib.Data.List.Perm.Basic

/-!
# Ledgers of tickets

Tickets are issued and stay pending until they are settled; settling writes one
outcome for each ticket it closes. An outcome is about the key of a ticket. A
balanced ledger has each key it issued either pending or among the outcomes,
as often as it was issued; with distinct keys each ticket that is no longer
pending has exactly one outcome.
-/

set_option autoImplicit false

structure TicketLedger (τ ω : Type*) where
  issued : List τ := []
  pending : List τ := []
  outcomes : List ω := []

namespace TicketLedger

variable {τ ω κ : Type*}

def issue (l : TicketLedger τ ω) (t : τ) : TicketLedger τ ω :=
  { l with issued := l.issued ++ [t], pending := l.pending ++ [t] }

def settle (l : TicketLedger τ ω) (closes : τ → Bool) (outcome : τ → ω) : TicketLedger τ ω :=
  { l with
    pending := l.pending.filter fun t => !closes t
    outcomes := l.outcomes ++ (l.pending.filter closes).map outcome }

variable (key : τ → κ) (about : ω → κ)

structure Balanced (l : TicketLedger τ ω) : Prop where
  pending_sub : l.pending.Sublist l.issued
  keys : (l.pending.map key ++ l.outcomes.map about).Perm (l.issued.map key)

/-- The outcomes that are about a ticket. -/
def outcomesOf [DecidableEq κ] (l : TicketLedger τ ω) (t : τ) : List ω :=
  l.outcomes.filter fun o => about o = key t

variable {key about} {l : TicketLedger τ ω}

theorem balanced_empty : Balanced key about ({} : TicketLedger τ ω) :=
  ⟨List.Sublist.refl _,List.Perm.refl _⟩

theorem Balanced.issue (h : Balanced key about l) (t : τ) : Balanced key about (l.issue t) := by
  refine ⟨h.pending_sub.append (List.Sublist.refl _),?_⟩
  have hmove : (l.pending.map key ++ ([t].map key ++ l.outcomes.map about)).Perm
      ((l.pending.map key ++ l.outcomes.map about) ++ [t].map key) := by
    rw [List.append_assoc]
    exact List.perm_append_comm.append_left _
  simp only [TicketLedger.issue, List.map_append, List.append_assoc]
  exact hmove.trans (h.keys.append_right _)

/-- Settling keeps the balance if it writes outcomes about the tickets it closes. -/
theorem Balanced.settle (h : Balanced key about l) {closes : τ → Bool} {outcome : τ → ω}
    (habout : ∀ t, closes t = true → about (outcome t) = key t) :
    Balanced key about (l.settle closes outcome) := by
  refine ⟨List.filter_sublist.trans h.pending_sub,?_⟩
  have hclosed : ((l.pending.filter closes).map outcome).map about =
      (l.pending.filter closes).map key := by
    rw [List.map_map]
    exact List.map_congr_left fun t ht => habout t (List.mem_filter.mp ht).2
  have hsplit : (l.pending.filter (fun t => !closes t) ++ l.pending.filter closes).Perm
      l.pending :=
    List.perm_append_comm.trans (List.filter_append_perm closes l.pending)
  have hkeys : ((l.pending.filter fun t => !closes t).map key ++
      (l.pending.filter closes).map key).Perm (l.pending.map key) := by
    rw [← List.map_append]
    exact hsplit.map key
  have hmove : ((l.pending.filter fun t => !closes t).map key ++
      (l.outcomes.map about ++ (l.pending.filter closes).map key)).Perm
      (((l.pending.filter fun t => !closes t).map key ++
        (l.pending.filter closes).map key) ++ l.outcomes.map about) := by
    rw [List.append_assoc]
    exact List.perm_append_comm.append_left _
  simp only [TicketLedger.settle, List.map_append, hclosed]
  exact (hmove.trans (hkeys.append_right _)).trans h.keys

/-- Every outcome is about a ticket that was issued. -/
theorem Balanced.known (h : Balanced key about l) {o : ω} (ho : o ∈ l.outcomes) :
    ∃ t ∈ l.issued, about o = key t := by
  have hmem : about o ∈ l.issued.map key :=
    h.keys.subset (List.mem_append_right _ (List.mem_map_of_mem ho))
  obtain ⟨t,ht,hkey⟩ := List.mem_map.mp hmem
  exact ⟨t,ht,hkey.symm⟩

section Distinct

variable [DecidableEq κ]

theorem length_outcomesOf (t : τ) :
    (l.outcomesOf key about t).length = (l.outcomes.map about).count (key t) := by
  rw [outcomesOf, ← List.countP_eq_length_filter, List.count, List.countP_map]
  exact List.countP_congr fun o _ => by simp

theorem Balanced.count (h : Balanced key about l) (hkeys : (l.issued.map key).Nodup) {t : τ}
    (ht : t ∈ l.issued) :
    (l.pending.map key).count (key t) + (l.outcomesOf key about t).length = 1 := by
  rw [length_outcomesOf, ← List.count_append, h.keys.count_eq]
  exact List.count_eq_one_of_mem hkeys (List.mem_map_of_mem ht)

/-- A pending ticket has no outcome yet. -/
theorem Balanced.outcomesOf_pending (h : Balanced key about l)
    (hkeys : (l.issued.map key).Nodup) {t : τ} (ht : t ∈ l.pending) :
    l.outcomesOf key about t = [] := by
  have hcount := h.count hkeys (h.pending_sub.subset ht)
  have hpos := List.count_pos_iff.mpr (List.mem_map_of_mem (f := key) ht)
  exact List.length_eq_zero_iff.mp (by omega)

/-- A ticket that is no longer pending has exactly one. -/
theorem Balanced.outcomesOf_settled (h : Balanced key about l)
    (hkeys : (l.issued.map key).Nodup) {t : τ} (ht : t ∈ l.issued) (hleft : t ∉ l.pending) :
    ∃ o, l.outcomesOf key about t = [o] := by
  have hnone : key t ∉ l.pending.map key := by
    intro hmem
    obtain ⟨t',ht',hkey⟩ := List.mem_map.mp hmem
    have heq := List.inj_on_of_nodup_map hkeys (h.pending_sub.subset ht') ht hkey
    exact hleft (heq ▸ ht')
  have hcount := h.count hkeys ht
  rw [List.count_eq_zero_of_not_mem hnone] at hcount
  exact List.length_eq_one_iff.mp (by omega)

end Distinct

end TicketLedger
