/-
Masks and sets: a mask below 2 ^ n stands for one set of n listed nodes, and what is asked of masks bit by bit is what is
asked of sets node by node.

Results:
- `mem_toSet`, `ofSet_toSet`: the nodes of a mask, and the mask of its nodes.
- `within_iff`, `meets_iff`: masks compared as sets.
- `exists_minimal_within`: every mask of a list holds a minimal one.
- `meets_of_allMeet_minimal`: if all minimal masks meet, all masks meet.
-/
import FederatedAgreement.Analysis.Mask

namespace FederatedAgreement

open Sorting (SortedSet)

namespace Mask

variable {ks : List NodeId} {nodes s t : NodeSet} {a b m : Nat} {k : NodeId}

/-! ## Bits -/

theorem mem_pick : k ∈ pick ks m ↔ ∃ i, ks[i]? = some k ∧ m.testBit i = true := by
  induction ks generalizing m with
  | nil => simp [pick]
  | cons j ks ih =>
    have split_first : (∃ i, (j :: ks)[i]? = some k ∧ m.testBit i = true) ↔
        (j = k ∧ m % 2 = 1) ∨ ∃ i, ks[i]? = some k ∧ (m / 2).testBit i = true := by
      constructor
      · rintro ⟨_ | i, hi, hb⟩
        · exact Or.inl ⟨Option.some.inj hi, by simpa using hb⟩
        · exact Or.inr ⟨i, hi, by rwa [Nat.testBit_div_two]⟩
      · rintro (⟨rfl, hb⟩ | ⟨i, hi, hb⟩)
        · exact ⟨0, rfl, by simpa using hb⟩
        · exact ⟨i + 1, hi, by rwa [← Nat.testBit_div_two]⟩
    rw [split_first, ← ih, pick]
    split
    · next odd => rw [List.mem_cons, eq_comm, and_iff_left odd]
    · next even => rw [or_iff_right fun h => even h.2]

theorem mem_toSet : k ∈ toSet nodes m ↔ ∃ i, nodes.toList[i]? = some k ∧ m.testBit i = true := mem_pick

theorem toSet_subset (nodes : NodeSet) (m : Nat) : toSet nodes m ⊆ nodes :=
  fun _ hk => (pick_sublist nodes.toList m).mem hk

theorem ofSet_lt (ks : List NodeId) (s : NodeSet) : ofSet ks s < 1 <<< ks.length := by
  rw [Nat.one_shiftLeft]
  induction ks with
  | nil => simp [ofSet]
  | cons k ks ih =>
    rw [ofSet, List.length_cons, Nat.pow_succ]
    split <;> omega

/-- a mask is found again from its nodes -/
theorem ofSet_pick (nodup : ks.Nodup) (h : m < 1 <<< ks.length) (same : ∀ k ∈ ks, k ∈ s ↔ k ∈ pick ks m) :
    ofSet ks s = m := by
  rw [Nat.one_shiftLeft] at h
  induction ks generalizing m with
  | nil =>
    rw [List.length_nil, Nat.pow_zero] at h
    rw [ofSet]
    omega
  | cons k ks ih =>
    obtain ⟨new, nodup⟩ := List.nodup_cons.1 nodup
    have absent : k ∉ pick ks (m / 2) := fun hk => new ((pick_sublist ks (m / 2)).mem hk)
    have half : m / 2 < 2 ^ ks.length := by
      rw [List.length_cons, Nat.pow_succ] at h
      omega
    have rest : ∀ j ∈ ks, j ∈ s ↔ j ∈ pick ks (m / 2) := by
      intro j hj
      have other : j ≠ k := fun e => new (e ▸ hj)
      rw [same j (List.mem_cons_of_mem k hj), pick]
      split
      · rw [List.mem_cons, or_iff_right other]
      · exact Iff.rfl
    have first : k ∈ s ↔ m % 2 = 1 := by
      rw [same k List.mem_cons_self, pick]
      split
      · next odd => exact iff_of_true List.mem_cons_self odd
      · next even => exact iff_of_false absent even
    rw [ofSet, ih nodup half rest]
    split
    · next hk =>
      have := first.1 hk
      omega
    · next hk =>
      have := mt first.2 hk
      omega

/-- **Sets name masks.** A mask over listed nodes is found again from its set. -/
theorem ofSet_toSet (h : m < 1 <<< nodes.toList.length) : ofSet nodes.toList (toSet nodes m) = m :=
  ofSet_pick nodes.nodup h fun _ _ => Iff.rfl

/-- below 2 ^ n every bit of a mask is the place of a node -/
theorem exists_of_testBit (h : m < 1 <<< nodes.toList.length) {i : Nat} (hi : m.testBit i = true) :
    ∃ k, nodes.toList[i]? = some k := by
  have place : i < nodes.toList.length := by
    by_cases hlt : i < nodes.toList.length
    · exact hlt
    · rw [Nat.one_shiftLeft] at h
      have high : m < 2 ^ i := Nat.lt_of_lt_of_le h (Nat.pow_le_pow_right (by decide) (Nat.not_lt.1 hlt))
      rw [Nat.testBit_lt_two_pow high] at hi
      exact absurd hi (by decide)
  exact ⟨nodes.toList[i], List.getElem?_eq_getElem place⟩

/-- two places of one node are one place -/
theorem place_unique {i j : Nat} (hi : nodes.toList[i]? = some k) (hj : nodes.toList[j]? = some k) : i = j := by
  obtain ⟨inside, _⟩ := List.getElem?_eq_some_iff.1 hi
  exact (List.getElem?_inj inside nodes.nodup).1 (hi.trans hj.symm)

/-! ## Masks as sets -/

theorem within_iff_testBit : within a b = true ↔ ∀ i, a.testBit i = true → b.testBit i = true := by
  rw [within, beq_iff_eq]
  constructor
  · intro e i hi
    rw [← e, Nat.testBit_and, Bool.and_eq_true] at hi
    exact hi.2
  · intro h
    refine Nat.eq_of_testBit_eq fun i => ?_
    rw [Nat.testBit_and]
    cases hi : a.testBit i with
    | false => rfl
    | true => rw [h i hi, Bool.and_true]

theorem within_iff (ha : a < 1 <<< nodes.toList.length) :
    within a b = true ↔ toSet nodes a ⊆ toSet nodes b := by
  rw [within_iff_testBit]
  constructor
  · intro h k hk
    obtain ⟨i, at_i, hi⟩ := mem_toSet.1 hk
    exact mem_toSet.2 ⟨i, at_i, h i hi⟩
  · intro h i hi
    obtain ⟨k, at_i⟩ := exists_of_testBit ha hi
    obtain ⟨j, at_j, hj⟩ := mem_toSet.1 (h k (mem_toSet.2 ⟨i, at_i, hi⟩))
    rwa [place_unique at_i at_j]

theorem ne_zero_iff (ha : a < 1 <<< nodes.toList.length) : a ≠ 0 ↔ ∃ k, k ∈ toSet nodes a := by
  constructor
  · intro h
    obtain ⟨i, hi⟩ := Nat.exists_testBit_of_ne_zero h
    obtain ⟨k, at_i⟩ := exists_of_testBit ha hi
    exact ⟨k, mem_toSet.2 ⟨i, at_i, hi⟩⟩
  · rintro ⟨k, hk⟩ rfl
    obtain ⟨i, _, hi⟩ := mem_toSet.1 hk
    rw [Nat.zero_testBit] at hi
    exact absurd hi (by decide)

theorem mem_toSet_and : k ∈ toSet nodes (a &&& b) ↔ k ∈ toSet nodes a ∧ k ∈ toSet nodes b := by
  simp only [mem_toSet, Nat.testBit_and, Bool.and_eq_true]
  constructor
  · rintro ⟨i, at_i, ha, hb⟩
    exact ⟨⟨i, at_i, ha⟩, ⟨i, at_i, hb⟩⟩
  · rintro ⟨⟨i, at_i, ha⟩, ⟨j, at_j, hb⟩⟩
    cases place_unique at_i at_j
    exact ⟨i, at_i, ha, hb⟩

theorem mem_toSet_or : k ∈ toSet nodes (a ||| b) ↔ k ∈ toSet nodes a ∨ k ∈ toSet nodes b := by
  simp only [mem_toSet, Nat.testBit_or, Bool.or_eq_true]
  constructor
  · rintro ⟨i, at_i, hi | hi⟩
    · exact Or.inl ⟨i, at_i, hi⟩
    · exact Or.inr ⟨i, at_i, hi⟩
  · rintro (⟨i, at_i, hi⟩ | ⟨i, at_i, hi⟩)
    · exact ⟨i, at_i, Or.inl hi⟩
    · exact ⟨i, at_i, Or.inr hi⟩

theorem meets_iff_testBit : meets a b = true ↔ ∃ i, a.testBit i = true ∧ b.testBit i = true := by
  rw [meets, bne_iff_ne]
  constructor
  · intro common
    obtain ⟨i, hi⟩ := Nat.exists_testBit_of_ne_zero common
    rw [Nat.testBit_and, Bool.and_eq_true] at hi
    exact ⟨i, hi⟩
  · rintro ⟨i, ha, hb⟩ empty
    have both : (a &&& b).testBit i = true := by rw [Nat.testBit_and, ha, hb, Bool.and_true]
    rw [empty, Nat.zero_testBit] at both
    exact absurd both (by decide)

theorem meets_iff (ha : a < 1 <<< nodes.toList.length) :
    meets a b = true ↔ ∃ k, k ∈ toSet nodes a ∧ k ∈ toSet nodes b := by
  have small : a &&& b < 1 <<< nodes.toList.length := Nat.lt_of_le_of_lt Nat.and_le_left ha
  simp only [meets, bne_iff_ne, ne_zero_iff small, mem_toSet_and]

/-! ## Lists of masks -/

theorem allMeet_iff {ms : List Nat} : allMeet ms = true ↔ ms.Pairwise fun a b => meets a b = true := by
  induction ms with
  | nil => simp [allMeet]
  | cons m ms ih => simp [allMeet, ih]

theorem meets_comm (a b : Nat) : meets a b = meets b a := by rw [meets, Nat.and_comm, meets]

/-- of masks that all meet, each also meets itself unless it is empty -/
theorem meets_of_allMeet {ms : List Nat} (h : allMeet ms = true) (nonempty : ∀ m ∈ ms, m ≠ 0) (ha : a ∈ ms)
    (hb : b ∈ ms) : meets a b = true := by
  have itself : ∀ m ∈ ms, meets m m = true := by
    intro m hm
    rw [meets, Nat.and_self, bne_iff_ne]
    exact nonempty m hm
  have flip : ms.Pairwise fun a b => meets b a = true := by simpa only [meets_comm] using allMeet_iff.1 h
  exact List.Pairwise.forall_of_forall_of_flip itself (allMeet_iff.1 h) flip ha hb

theorem within_le (h : within a b = true) : a ≤ b := by
  rw [within, beq_iff_eq] at h
  rw [← h]
  exact Nat.and_le_right

theorem within_trans (h : within a b = true) (h' : within b m = true) : within a m = true :=
  within_iff_testBit.2 fun i hi => within_iff_testBit.1 h' i (within_iff_testBit.1 h i hi)

theorem mem_minimal {ms : List Nat} :
    a ∈ minimal ms ↔ a ∈ ms ∧ ∀ other ∈ ms, within other a = true → other = a := by
  simp only [minimal, List.mem_filter, List.all_eq_true, Bool.or_eq_true, Bool.not_eq_true', beq_iff_eq]
  refine and_congr_right fun _ => forall₂_congr fun other _ => ?_
  cases within other a <;> simp

/-- every mask of a list holds a minimal one: the least number among those that it holds -/
theorem exists_minimal_within {ms : List Nat} (h : m ∈ ms) : ∃ a ∈ minimal ms, within a m = true := by
  induction m using Nat.strongRecOn with
  | ind m ih =>
    by_cases least : ∀ other ∈ ms, within other m = true → other = m
    · exact ⟨m, mem_minimal.2 ⟨h, least⟩, by rw [within, Nat.and_self, beq_self_eq_true]⟩
    · simp only [Classical.not_forall] at least
      obtain ⟨other, hother, inside, ne⟩ := least
      obtain ⟨a, ha, within_other⟩ := ih other (Nat.lt_of_le_of_ne (within_le inside) ne) hother
      exact ⟨a, ha, within_trans within_other inside⟩

/-- **Minimal masks decide.** If all minimal masks of a list meet, and none is empty, then all masks of the list meet. -/
theorem meets_of_allMeet_minimal {ms : List Nat} (h : allMeet (minimal ms) = true) (nonempty : ∀ m ∈ ms, m ≠ 0)
    (ha : a ∈ ms) (hb : b ∈ ms) : meets a b = true := by
  obtain ⟨a', ha', within_a⟩ := exists_minimal_within ha
  obtain ⟨b', hb', within_b⟩ := exists_minimal_within hb
  have common := meets_of_allMeet h (fun m hm => nonempty m (mem_minimal.1 hm).1) ha' hb'
  obtain ⟨i, hi, hi'⟩ := meets_iff_testBit.1 common
  exact meets_iff_testBit.2 ⟨i, within_iff_testBit.1 within_a i hi, within_iff_testBit.1 within_b i hi'⟩

/-! ## Order by size -/

theorem size_le (n m : Nat) : size n m ≤ n := by
  induction n generalizing m with
  | zero => exact Nat.le_refl 0
  | succ n ih =>
    have := ih (m / 2)
    rw [size]
    omega

theorem mem_bySize {n : Nat} {ms : List Nat} : m ∈ bySize n ms ↔ m ∈ ms := by
  simp only [bySize, List.mem_flatMap, List.mem_range, List.mem_filter, beq_iff_eq]
  constructor
  · rintro ⟨_, _, hm, _⟩
    exact hm
  · intro hm
    exact ⟨size n m, Nat.lt_succ_of_le (size_le n m), hm, rfl⟩

end Mask

end FederatedAgreement
