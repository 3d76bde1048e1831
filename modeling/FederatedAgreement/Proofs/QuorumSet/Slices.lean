/-
What the listed slices of a quorum set say. Satisfying a quorum set is defined by counting members, listing its slices by
picking members and expanding inner quorum sets. The two agree: a set of nodes satisfies a quorum set exactly when one
of the listed slices lies within it. Every slice is listed once and holds validators of the quorum set only.

Results:
- `exists_selection_iff`: a selection of `k` good elements exists exactly when `k` elements are good.
- `exists_unions_subset_iff`: a union of one set from each list lies in `s` exactly when each list has a set that does.
- `TrustTree.isSlice_iff_exists_slice`: counting and listing agree.
- `TrustTree.nodup_slices`, `TrustTree.slice_subset_validatorSet`: slices are listed once and made of validators.
- `QuorumSet.listing_agrees_with_counting`: all of this, for every quorum set and every set of nodes.
- `QuorumSet.isSlice_mono`, `QuorumSet.isBlocking_mono`: more nodes satisfy, and block, no less.
-/
import FederatedAgreement.QuorumSet.Satisfaction
import FederatedAgreement.QuorumSet.Slices

namespace FederatedAgreement

open Sorting (SortedSet)

/-! ## Selections and unions -/

theorem exists_selection_iff {α : Type} {p : α → Bool} {k : Nat} {as : List α} :
    (∃ l ∈ selections k as, ∀ a ∈ l, p a = true) ↔ k ≤ as.countP p := by
  induction as generalizing k with
  | nil =>
    cases k with
    | zero => simp [selections]
    | succ k => simp [selections]
  | cons a as ih =>
    cases k with
    | zero => simp [selections]
    | succ k =>
      have split : (∃ l ∈ selections (k + 1) (a :: as), ∀ x ∈ l, p x = true) ↔
          (p a = true ∧ k ≤ as.countP p) ∨ k + 1 ≤ as.countP p := by
        rw [← ih (k := k), ← ih (k := k + 1)]
        simp only [selections, List.mem_append, List.mem_map]
        constructor
        · rintro ⟨l, ⟨l', hl', rfl⟩ | hl, hp⟩
          · exact Or.inl ⟨hp a List.mem_cons_self, l', hl', fun x hx => hp x (List.mem_cons_of_mem a hx)⟩
          · exact Or.inr ⟨l, hl, hp⟩
        · rintro (⟨ha, l, hl, hp⟩ | ⟨l, hl, hp⟩)
          · exact ⟨a :: l, Or.inl ⟨l, hl, rfl⟩, List.forall_mem_cons.2 ⟨ha, hp⟩⟩
          · exact ⟨l, Or.inr hl, hp⟩
      rw [split, List.countP_cons]
      by_cases ha : p a = true
      · simp only [ha, true_and, if_true]
        omega
      · simp only [ha, false_and, false_or, if_false, Nat.add_zero, Bool.false_eq_true]

theorem union_subset_iff {s t u : NodeSet} : s ∪ t ⊆ u ↔ s ⊆ u ∧ t ⊆ u := by
  constructor
  · intro h
    exact ⟨fun a ha => h a (SortedSet.mem_union.2 (Or.inl ha)), fun a ha => h a (SortedSet.mem_union.2 (Or.inr ha))⟩
  · rintro ⟨hs, ht⟩ a ha
    rcases SortedSet.mem_union.1 ha with ha | ha
    · exact hs a ha
    · exact ht a ha

/-- the same for any unions begun before, which the induction needs -/
theorem exists_foldl_subset_iff {s : NodeSet} {choices : List (List NodeSet)} {begun : List NodeSet} :
    (∃ u ∈ choices.foldl (fun partials options => partials.flatMap fun p => options.map (p ∪ ·)) begun, u ⊆ s) ↔
      (∃ p ∈ begun, p ⊆ s) ∧ ∀ options ∈ choices, ∃ o ∈ options, o ⊆ s := by
  induction choices generalizing begun with
  | nil => simp
  | cons options rest ih =>
    have extend : (∃ u ∈ begun.flatMap fun p => options.map (p ∪ ·), u ⊆ s) ↔
        (∃ p ∈ begun, p ⊆ s) ∧ ∃ o ∈ options, o ⊆ s := by
      simp only [List.mem_flatMap, List.mem_map]
      constructor
      · rintro ⟨_, ⟨p, hp, o, ho, rfl⟩, hs⟩
        obtain ⟨hps, hos⟩ := union_subset_iff.1 hs
        exact ⟨⟨p, hp, hps⟩, o, ho, hos⟩
      · rintro ⟨⟨p, hp, hps⟩, o, ho, hos⟩
        exact ⟨p ∪ o, ⟨p, hp, o, ho, rfl⟩, union_subset_iff.2 ⟨hps, hos⟩⟩
    rw [List.foldl_cons, ih, extend, List.forall_mem_cons, and_assoc]

theorem exists_unions_subset_iff {s : NodeSet} {choices : List (List NodeSet)} :
    (∃ u ∈ unions choices, u ⊆ s) ↔ ∀ options ∈ choices, ∃ o ∈ options, o ⊆ s := by
  unfold unions
  rw [exists_foldl_subset_iff]
  refine and_iff_right ⟨∅, List.mem_singleton_self _, ?_⟩
  intro a ha
  exact absurd ha (SortedSet.not_mem_empty a)

/-! ## Origins of what is picked -/

theorem mem_of_mem_selections {α : Type} {k : Nat} {as l : List α} (h : l ∈ selections k as) : ∀ a ∈ l, a ∈ as := by
  induction as generalizing k l with
  | nil =>
    cases k with
    | zero => simp [List.mem_singleton.1 h]
    | succ k => simp [selections] at h
  | cons b as ih =>
    cases k with
    | zero => simp [List.mem_singleton.1 h]
    | succ k =>
      simp only [selections, List.mem_append, List.mem_map] at h
      intro a ha
      rcases h with ⟨l', hl', rfl⟩ | hl
      · rcases List.mem_cons.1 ha with rfl | ha
        · exact List.mem_cons_self
        · exact List.mem_cons_of_mem b (ih hl' a ha)
      · exact List.mem_cons_of_mem b (ih hl a ha)

/-- the same for any unions begun before, which the induction needs -/
theorem mem_foldl_unions {v : NodeId} {u : NodeSet} {choices : List (List NodeSet)} {begun : List NodeSet}
    (hu : u ∈ choices.foldl (fun partials options => partials.flatMap fun p => options.map (p ∪ ·)) begun)
    (hv : v ∈ u) : (∃ p ∈ begun, v ∈ p) ∨ ∃ options ∈ choices, ∃ o ∈ options, v ∈ o := by
  induction choices generalizing begun with
  | nil => exact Or.inl ⟨u, hu, hv⟩
  | cons options rest ih =>
    rcases ih hu with ⟨p', hp', hvp⟩ | ⟨later, hl, found⟩
    · simp only [List.mem_flatMap, List.mem_map] at hp'
      obtain ⟨p, hp, o, ho, rfl⟩ := hp'
      rcases SortedSet.mem_union.1 hvp with hvp | hvo
      · exact Or.inl ⟨p, hp, hvp⟩
      · exact Or.inr ⟨options, List.mem_cons_self, o, ho, hvo⟩
    · exact Or.inr ⟨later, List.mem_cons_of_mem options hl, found⟩

theorem exists_option_of_mem_unions {v : NodeId} {u : NodeSet} {choices : List (List NodeSet)} (hu : u ∈ unions choices)
    (hv : v ∈ u) : ∃ options ∈ choices, ∃ o ∈ options, v ∈ o := by
  rcases mem_foldl_unions hu hv with ⟨p, hp, hvp⟩ | found
  · rw [List.mem_singleton.1 hp] at hvp
    exact absurd hvp (SortedSet.not_mem_empty v)
  · exact found

/-- what is left when repeated elements are dropped has no repeated elements -/
theorem nodup_eraseDups {α : Type} [BEq α] [LawfulBEq α] (as : List α) : as.eraseDups.Nodup := by
  induction hn : as.length using Nat.strongRecOn generalizing as with
  | ind n ih =>
    cases as with
    | nil => simp
    | cons a as =>
      rw [List.eraseDups_cons, List.nodup_cons]
      have fewer : (as.filter fun b => !b == a).length < n := by
        rw [← hn]
        exact Nat.lt_succ_of_le (List.length_filter_le _ as)
      refine ⟨?_, ih _ fewer _ rfl⟩
      intro again
      simp at again

/-! ## Counting and listing -/

namespace TrustTree

/-- what the list of slices holds, before repetitions are left out -/
theorem mem_slices {q : TrustTree} {t : NodeSet} :
    t ∈ q.slices ↔ 0 < q.memberCount ∧ ∃ l ∈ selections q.threshold
      (q.validators.map (fun v => [SortedSet.singleton v]) ++ (q.inner.map slices).filter (!·.isEmpty)),
        t ∈ unions l := by
  obtain ⟨threshold, vs, qs⟩ := q
  simp only [slices, sliceLists_eq_filter, memberCount]
  split
  · next h => simp [h]
  · next h => simp [Nat.pos_of_ne_zero h]

/-- how many of the lists that members stand for have a set within `s` -/
theorem countP_options {vs : List NodeId} {lists : List (List NodeSet)} {s : NodeSet} :
    (vs.map (fun v => [SortedSet.singleton v]) ++ lists.filter (!·.isEmpty)).countP (fun options => options.any (· ⊆ s))
      = vs.countP (· ∈ s) + lists.countP (fun options => options.any (· ⊆ s)) := by
  have single : ∀ v : NodeId, SortedSet.singleton v ⊆ s ↔ v ∈ s := by
    intro v
    constructor
    · intro h
      exact h v (SortedSet.mem_singleton.2 rfl)
    · intro h a ha
      rw [SortedSet.mem_singleton.1 ha]
      exact h
  have filtered : ∀ options : List NodeSet,
      (options.any (· ⊆ s) && !options.isEmpty) = options.any (· ⊆ s) := by
    intro options
    cases options <;> simp
  rw [List.countP_append, List.countP_map, List.countP_filter]
  simp only [filtered, Function.comp_def, List.any_cons, List.any_nil, Bool.or_false, single]

/-- **Counting and listing agree.** Where every threshold is at least one, a set satisfies a tree exactly when one of
the listed slices lies within it. -/
theorem isSlice_iff_exists_slice {q : TrustTree} (h : q.consistent = true) {s : NodeSet} :
    q.isSlice s = true ↔ ∃ t ∈ q.slices, t ⊆ s := by
  induction q using induct with
  | step q ih =>
    obtain ⟨level, inner⟩ := consistent_iff.1 h
    have counted : q.inner.countP (isSlice s) = (q.inner.map slices).countP (fun options => options.any (· ⊆ s)) := by
      rw [List.countP_map]
      refine List.countP_congr fun r hr => ?_
      rw [ih r hr (inner r hr), Function.comp_apply, List.any_eq_true]
      simp only [decide_eq_true_eq]
    have listed : (∃ t ∈ q.slices, t ⊆ s) ↔ 0 < q.memberCount ∧ ∃ l ∈ selections q.threshold
        (q.validators.map (fun v => [SortedSet.singleton v]) ++ (q.inner.map slices).filter (!·.isEmpty)),
          ∀ options ∈ l, options.any (· ⊆ s) = true := by
      simp only [mem_slices, List.any_eq_true, decide_eq_true_eq]
      constructor
      · rintro ⟨t, ⟨hm, l, hl, ht⟩, hs⟩
        exact ⟨hm, l, hl, exists_unions_subset_iff.1 ⟨t, ht, hs⟩⟩
      · rintro ⟨hm, l, hl, hall⟩
        obtain ⟨t, ht, hs⟩ := exists_unions_subset_iff.2 hall
        exact ⟨t, ⟨hm, l, hl, ht⟩, hs⟩
    have bounded : q.validators.countP (· ∈ s) + q.inner.countP (isSlice s) ≤ q.memberCount :=
      Nat.add_le_add List.countP_le_length List.countP_le_length
    rw [isSlice_iff, listed, exists_selection_iff, countP_options, ← counted]
    have := level.1
    omega

/-! ## What slices are made of -/

theorem nodup_slices (q : TrustTree) : q.slices.Nodup := by
  obtain ⟨threshold, vs, qs⟩ := q
  rw [slices]
  split
  · exact List.nodup_nil
  · exact nodup_eraseDups _

/-- a picked validator is one itself, and an inner tree that is picked brings validators of its own -/
theorem slice_subset_validatorSet {q : TrustTree} {t : NodeSet} (h : t ∈ q.slices) : t ⊆ q.validatorSet := by
  induction q using induct generalizing t with
  | step q ih =>
    intro v hv
    obtain ⟨-, l, hl, ht⟩ := mem_slices.1 h
    obtain ⟨options, hoptions, o, ho, hvo⟩ := exists_option_of_mem_unions ht hv
    rw [mem_validatorSet]
    rcases List.mem_append.1 (mem_of_mem_selections hl options hoptions) with single | listed
    · obtain ⟨w, hw, rfl⟩ := List.mem_map.1 single
      rw [List.mem_singleton.1 ho] at hvo
      rw [SortedSet.mem_singleton.1 hvo]
      exact Or.inl hw
    · obtain ⟨r, hr, rfl⟩ := List.mem_map.1 (List.mem_filter.1 listed).1
      exact Or.inr ⟨r, hr, ih r hr ho v hvo⟩

/-! ## More nodes -/

/-- more nodes block no less -/
theorem isBlocking_mono {q : TrustTree} {s t : NodeSet} (hst : s ⊆ t) (h : q.isBlocking s = true) :
    q.isBlocking t = true := by
  induction q using induct with
  | step q ih =>
    obtain ⟨hne, hlt⟩ := isBlocking_iff.1 h
    have validators : q.validators.countP (· ∉ t) ≤ q.validators.countP (· ∉ s) := by
      refine List.countP_mono_left fun v _ hv => ?_
      simp only [decide_eq_true_eq] at hv ⊢
      exact fun hs => hv (hst v hs)
    have inner : q.inner.countP (fun r => !r.isEmpty && !r.isBlocking t) ≤
        q.inner.countP (fun r => !r.isEmpty && !r.isBlocking s) := by
      refine List.countP_mono_left fun r hr hopen => ?_
      simp only [Bool.and_eq_true, Bool.not_eq_true'] at hopen ⊢
      refine ⟨hopen.1, ?_⟩
      cases hb : r.isBlocking s with
      | false => rfl
      | true =>
        have := ih r hr hb
        rw [hopen.2] at this
        exact absurd this (by decide)
    exact isBlocking_iff.2 ⟨hne, by omega⟩

end TrustTree

namespace QuorumSet

variable (q : QuorumSet) {s t : NodeSet}

theorem isSlice_iff_exists_slice : q.isSlice s = true ↔ ∃ t ∈ q.slices, t ⊆ s :=
  TrustTree.isSlice_iff_exists_slice q.consistent

/-- more nodes satisfy no less -/
theorem isSlice_mono (hst : s ⊆ t) (h : q.isSlice s = true) : q.isSlice t = true := by
  obtain ⟨u, hu, hus⟩ := q.isSlice_iff_exists_slice.1 h
  exact q.isSlice_iff_exists_slice.2 ⟨u, hu, SortedSet.Subset.trans hus hst⟩

theorem isBlocking_mono (hst : s ⊆ t) (h : q.isBlocking s = true) : q.isBlocking t = true :=
  TrustTree.isBlocking_mono hst h

/-- **Counting and listing agree**, for every quorum set. A set of nodes satisfies it if and only if the set holds a
listed slice. No slice is listed twice, and each is made of validators of the quorum set, at whatever depth. -/
theorem listing_agrees_with_counting :
    (∀ s : NodeSet, q.isSlice s = true ↔ ∃ t ∈ q.slices, t ⊆ s) ∧ q.slices.Nodup ∧
      ∀ t ∈ q.slices, t ⊆ q.validatorSet := by
  refine ⟨fun s => q.isSlice_iff_exists_slice, TrustTree.nodup_slices q.tree, ?_⟩
  intro t ht
  exact TrustTree.slice_subset_validatorSet ht

end QuorumSet

end FederatedAgreement
