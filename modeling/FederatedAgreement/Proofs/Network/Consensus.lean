/-
What is counted of a network, in terms of its nodes.

Results:
- `Network.mem_confirmations`: the statements that nodes confirmed.
- `Consensus.isSplit_iff`: a network is split if and only if different statements were confirmed.
- `Consensus.sum_phaseCounts`, `Consensus.confirmedCount_eq`, `Consensus.lookup_confirmedCounts`: what each of the counts
  is.
- `Network.isReached_iff`, `Network.isSplit_iff`: what the verdicts say of the nodes.
-/
import FederatedAgreement.Consensus
import FederatedAgreement.Proofs.QuorumSet.Slices
import Mathlib.Algebra.BigOperators.Group.List.Lemmas
import Mathlib.Data.List.Dedup

namespace FederatedAgreement

/-- more than one element is left when repeated ones are dropped if and only if there are different elements -/
theorem one_lt_length_eraseDups {α : Type} [BEq α] [LawfulBEq α] {as : List α} :
    1 < as.eraseDups.length ↔ ∃ a ∈ as, ∃ b ∈ as, a ≠ b := by
  cases as with
  | nil => simp
  | cons a as =>
    have others : 0 < (as.filter fun b => !b == a).eraseDups.length ↔ ∃ b ∈ as, b ≠ a := by
      simp [List.length_pos_iff_exists_mem]
    rw [List.eraseDups_cons, List.length_cons, Nat.lt_add_left_iff_pos, others]
    constructor
    · rintro ⟨b, hb, ne⟩
      exact ⟨b, List.mem_cons_of_mem a hb, a, List.mem_cons_self, ne⟩
    · rintro ⟨b, hb, c, hc, ne⟩
      by_cases e : b = a
      · have other : c ≠ a := fun e' => ne (e.trans e'.symm)
        exact ⟨c, (List.mem_cons.1 hc).resolve_left other, other⟩
      · exact ⟨b, (List.mem_cons.1 hb).resolve_left e, e⟩

/-- one element is left if there are elements and all are the same -/
theorem length_eraseDups_eq_one_iff {α : Type} [BEq α] [LawfulBEq α] {as : List α} :
    as.eraseDups.length = 1 ↔ as ≠ [] ∧ ∀ a ∈ as, ∀ b ∈ as, a = b := by
  have several : 1 < as.eraseDups.length ↔ ¬ ∀ a ∈ as, ∀ b ∈ as, a = b := by
    rw [one_lt_length_eraseDups]
    push Not
    rfl
  have some_left : 0 < as.eraseDups.length ↔ as ≠ [] := by
    simp [List.length_pos_iff_exists_mem, List.eq_nil_iff_forall_not_mem]
  rw [← some_left, ← Classical.not_not (a := ∀ a ∈ as, _), ← several]
  omega

theorem Network.mem_confirmations {n : Network} {hasNext : Bool} {s : Statement} :
    s ∈ (n.consensus hasNext).confirmations ↔ ∃ key st, n.roster.get? key = some st ∧ st.confirmed = some s := by
  simp only [consensus, Consensus.confirmations, List.mem_filterMap, List.mem_map, Roster.mem_values]
  constructor
  · rintro ⟨_, ⟨st, ⟨key, here⟩, rfl⟩, hs⟩
    exact ⟨key, st, here, hs⟩
  · rintro ⟨key, st, here, hs⟩
    exact ⟨st.standing, ⟨st, ⟨key, here⟩, rfl⟩, hs⟩

theorem Consensus.isSplit_iff {c : Consensus} :
    c.isSplit = true ↔ ∃ s ∈ c.confirmations, ∃ t ∈ c.confirmations, s ≠ t := by
  rw [isSplit, decide_eq_true_eq, confirmedCounts, List.length_map, one_lt_length_eraseDups]

/-- if all that nodes confirmed is one statement, the network is not split -/
theorem Network.isSplit_eq_false {n : Network} (hasNext : Bool)
    (h : ∀ {u w su sw s t}, n.roster.get? u = some su → n.roster.get? w = some sw → su.confirmed = some s →
      sw.confirmed = some t → s = t) : (n.consensus hasNext).isSplit = false := by
  rw [Bool.eq_false_iff]
  intro split
  obtain ⟨s, hs, t, ht, ne⟩ := Consensus.isSplit_iff.1 split
  obtain ⟨u, su, here, hs⟩ := mem_confirmations.1 hs
  obtain ⟨w, sw, there, ht⟩ := mem_confirmations.1 ht
  exact ne (h here there hs ht)

namespace Consensus

variable {c : Consensus}

/-! ## Counts -/

/-- every node is in one phase -/
theorem sum_phaseCounts (c : Consensus) : (c.phaseCounts.map Prod.snd).foldr (· + ·) 0 = c.nodeCount := by
  obtain ⟨standings, _⟩ := c
  unfold phaseCounts nodeCount
  induction standings with
  | nil => rfl
  | cons x standings ih =>
    obtain ⟨phase, confirmed⟩ := x
    simp only [Phase.all, List.map_cons, List.map_nil, List.foldr_cons, List.foldr_nil, List.countP_cons,
      List.length_cons] at ih ⊢
    cases phase <;> simp <;> omega

/-- every confirmation is counted once, under its statement -/
theorem confirmedCount_eq (c : Consensus) : c.confirmedCount = c.confirmations.length := by
  have order : c.confirmations.eraseDups.Perm c.confirmations.dedup := by
    rw [List.perm_ext_iff_of_nodup (nodup_eraseDups _) (List.nodup_dedup _)]
    simp
  rw [confirmedCount, ← List.sum_eq_foldr, confirmedCounts, List.map_map, ← List.sum_map_count_dedup_eq_length]
  exact (order.map _).sum_eq

/-- the number that is noted for a statement, if any is -/
theorem lookup_confirmedCounts {s : Statement} {k : Nat} :
    c.confirmedCounts.lookup s = some k ↔ k = c.confirmations.count s ∧ 0 < k := by
  by_cases confirmed : s ∈ c.confirmations
  · have noted := List.lookup_graph (c.confirmations.count ·) (List.mem_eraseDups.2 confirmed)
    rw [confirmedCounts, noted, Option.some.injEq]
    exact ⟨fun e => ⟨e.symm, e ▸ List.count_pos_iff.2 confirmed⟩, fun h => h.1.symm⟩
  · have noted : c.confirmedCounts.lookup s = none := by
      rw [List.lookup_eq_none_iff]
      intro p hp
      obtain ⟨t, ht, rfl⟩ := List.mem_map.1 hp
      have other : s ≠ t := fun e => confirmed (List.mem_eraseDups.1 (e ▸ ht))
      simpa using other
    rw [noted, List.count_eq_zero_of_not_mem confirmed]
    exact ⟨nofun, fun ⟨zero, positive⟩ => absurd (zero ▸ positive) (Nat.lt_irrefl 0)⟩

/-- there is consensus if there are nodes, and all of them confirmed one statement -/
theorem isReached_iff : c.isReached = true ↔ c.standings ≠ [] ∧ ∃ s, ∀ x ∈ c.standings, x.confirmed = some s := by
  have number : c.confirmedCounts.length = c.confirmations.eraseDups.length := List.length_map _
  simp only [isReached, Bool.and_eq_true, decide_eq_true_eq, confirmedCount_eq, number, nodeCount,
    List.length_pos_iff, length_eraseDups_eq_one_iff, confirmations, List.filterMap_length_eq_length, List.mem_filterMap]
  constructor
  · rintro ⟨⟨some_node, confirmed⟩, _, same⟩
    obtain ⟨x, hx⟩ := List.exists_mem_of_ne_nil _ some_node
    obtain ⟨s, hs⟩ := Option.isSome_iff_exists.1 (confirmed x hx)
    refine ⟨some_node, s, fun y hy => ?_⟩
    obtain ⟨t, ht⟩ := Option.isSome_iff_exists.1 (confirmed y hy)
    rw [ht, same t ⟨y, hy, ht⟩ s ⟨x, hx, hs⟩]
  · rintro ⟨some_node, s, confirmed⟩
    obtain ⟨x, hx⟩ := List.exists_mem_of_ne_nil _ some_node
    have only : ∀ t, (∃ y ∈ c.standings, y.confirmed = some t) → t = s := by
      rintro t ⟨y, hy, ht⟩
      exact Option.some.inj (ht.symm.trans (confirmed y hy))
    refine ⟨⟨some_node, fun y hy => Option.isSome_iff_exists.2 ⟨s, confirmed y hy⟩⟩, ?_, ?_⟩
    · exact List.ne_nil_of_mem (List.mem_filterMap.2 ⟨x, hx, confirmed x hx⟩)
    · exact fun t ht u hu => (only t ht).trans (only u hu).symm

end Consensus

/-! ## Counting by nodes -/

namespace Roster

variable {α : Type}

/-- values are counted at their nodes -/
theorem countP_values (r : Roster α) (p : α → Bool) :
    r.values.countP p = r.keys.countP fun k => (r.get? k).any p := by
  rw [Roster.values, Roster.keys, List.countP_map, List.countP_map]
  refine List.countP_congr fun e he => ?_
  have here : r.get? e.1 = some e.2 := get?_eq_some_iff.2 he
  simp [here]

end Roster

namespace Network

variable {n n' : Network} {hasNext : Bool}

/-- a statement is counted once for each node that confirmed it -/
theorem count_confirmations (n : Network) (hasNext : Bool) (s : Statement) :
    (n.consensus hasNext).confirmations.count s =
      n.keys.countP fun k => (n.roster.get? k).any (·.confirmed = some s) := by
  rw [keys, ← Roster.countP_values, Consensus.confirmations, Network.consensus, List.filterMap_map, List.count,
    List.countP_filterMap]
  refine List.countP_congr fun st _ => ?_
  cases confirmed : st.confirmed <;> simp [VotingState.standing, confirmed]

/-- there is consensus if there are nodes, and one statement that all of them confirmed -/
theorem isReached_iff : (n.consensus hasNext).isReached = true ↔
    n.keys ≠ [] ∧ ∃ s, ∀ key st, n.roster.get? key = some st → st.confirmed = some s := by
  have some_node : (n.consensus hasNext).standings ≠ [] ↔ n.keys ≠ [] := by
    simp [consensus, keys, Roster.keys, Roster.values]
  rw [Consensus.isReached_iff, some_node]
  refine and_congr_right fun _ => exists_congr fun s => ?_
  constructor
  · intro confirmed key st here
    exact confirmed st.standing (List.mem_map_of_mem (Roster.mem_values.2 ⟨key, here⟩))
  · intro confirmed x hx
    obtain ⟨st, hst, rfl⟩ := List.mem_map.1 hx
    obtain ⟨key, here⟩ := Roster.mem_values.1 hst
    exact confirmed key st here

/-- the network is split if two nodes confirmed different statements -/
theorem isSplit_iff : (n.consensus hasNext).isSplit = true ↔
    ∃ u w su sw, n.roster.get? u = some su ∧ n.roster.get? w = some sw ∧
      ∃ s t, su.confirmed = some s ∧ sw.confirmed = some t ∧ s ≠ t := by
  rw [Consensus.isSplit_iff]
  constructor
  · rintro ⟨s, hs, t, ht, ne⟩
    obtain ⟨u, su, here, hs⟩ := mem_confirmations.1 hs
    obtain ⟨w, sw, there, ht⟩ := mem_confirmations.1 ht
    exact ⟨u, w, su, sw, here, there, s, t, hs, ht, ne⟩
  · rintro ⟨u, w, su, sw, here, there, s, t, hs, ht, ne⟩
    exact ⟨s, mem_confirmations.2 ⟨u, su, here, hs⟩, t, mem_confirmations.2 ⟨w, sw, there, ht⟩, ne⟩

end Network

end FederatedAgreement
