/-
Which listed slices are minimal. A listed slice is made of one set from each of as many members as the threshold says.
If no node of it is named twice in the quorum set, what it took from different members has nothing in common, so a slice
within it took something from the same members, and the same from each; then it is the same slice. A node that is named
twice can be taken for two members at once, and then slices are listed that hold others.

Results:
- `TrustTree.mem_slices_iff`: the listed slices are the sets that are made of as many members as the threshold says.
- `MadeOf.eq_of_subset`: of members that are apart, no more can be taken within a set that is made of them.
- `TrustTree.slice_eq_of_subset`: a listed slice holds no other, unless it has a node that is named twice.
- `QuorumSet.minimal_slices_listed`: **the minimal slices**, and what else is listed.
- `QuorumSet.aloneOrBoth_superfluous`: where a node is named twice, a slice that holds another is listed.
-/
import FederatedAgreement.Proofs.QuorumSet.Slices
import Mathlib.Data.List.Nodup

namespace FederatedAgreement

open Sorting (SortedSet)

section
variable (s t u : NodeSet)

theorem empty_union : ∅ ∪ s = s := SortedSet.ext fun k => by simp

theorem union_empty : s ∪ ∅ = s := SortedSet.ext fun k => by simp

theorem union_assoc : s ∪ t ∪ u = s ∪ (t ∪ u) := SortedSet.ext fun k => by simp [or_assoc]

theorem union_left_comm : s ∪ (t ∪ u) = t ∪ (s ∪ u) := SortedSet.ext fun k => by simp [or_left_comm]

end

/-! ## Sets made of members -/

/-- the set is a union of one set from each of `k` of the members, where a member is known by the sets that can be taken
for it -/
inductive MadeOf : Nat → List (NodeSet → Prop) → NodeSet → Prop
  | nothing : MadeOf 0 [] ∅
  | take {k : Nat} {A : NodeSet → Prop} {members : List (NodeSet → Prop)} {o t : NodeSet} (option : A o)
      (rest : MadeOf k members t) : MadeOf (k + 1) (A :: members) (o ∪ t)
  | skip {k : Nat} {A : NodeSet → Prop} {members : List (NodeSet → Prop)} {t : NodeSet} (rest : MadeOf k members t) :
      MadeOf k (A :: members) t

section
variable {j k : Nat} {A : NodeSet → Prop} {members : List (NodeSet → Prop)} {s t u : NodeSet}

theorem madeOf_nil : MadeOf k [] t ↔ k = 0 ∧ t = ∅ := by
  constructor
  · rintro ⟨⟩
    exact ⟨rfl, rfl⟩
  · rintro ⟨rfl, rfl⟩
    exact .nothing

theorem madeOf_zero : MadeOf 0 members t ↔ t = ∅ := by
  induction members with
  | nil => rw [madeOf_nil, and_iff_right rfl]
  | cons A members ih =>
    rw [← ih]
    constructor
    · rintro ⟨⟩
      assumption
    · exact .skip

theorem madeOf_cons_succ : MadeOf (k + 1) (A :: members) t ↔
    (∃ o, A o ∧ ∃ u, MadeOf k members u ∧ t = o ∪ u) ∨ MadeOf (k + 1) members t := by
  constructor
  · rintro (_ | ⟨option, rest⟩ | rest)
    · exact Or.inl ⟨_, option, _, rest, rfl⟩
    · exact Or.inr rest
  · rintro (⟨o, option, u, rest, rfl⟩ | rest)
    · exact .take option rest
    · exact .skip rest

theorem MadeOf.mem (h : MadeOf k members t) {v : NodeId} (hv : v ∈ t) : ∃ A ∈ members, ∃ o, A o ∧ v ∈ o := by
  induction h with
  | nothing => exact absurd hv (SortedSet.not_mem_empty v)
  | take option _ ih =>
    rcases SortedSet.mem_union.1 hv with hv | hv
    · exact ⟨_, List.mem_cons_self, _, option, hv⟩
    · obtain ⟨A, hA, found⟩ := ih hv
      exact ⟨A, List.mem_cons_of_mem _ hA, found⟩
  | skip _ ih =>
    obtain ⟨A, hA, found⟩ := ih hv
    exact ⟨A, List.mem_cons_of_mem _ hA, found⟩

/-- picking lists and taking unions is making sets of members, also if unions were begun before, which the induction
needs -/
theorem exists_selection_foldl_iff {lists : List (List NodeSet)} {begun : List NodeSet} :
    (∃ l ∈ selections k lists,
      t ∈ l.foldl (fun partials options => partials.flatMap fun p => options.map (p ∪ ·)) begun) ↔
    ∃ p ∈ begun, ∃ u, MadeOf k (lists.map fun options o => o ∈ options) u ∧ t = p ∪ u := by
  induction lists generalizing k begun with
  | nil =>
    cases k with
    | zero => simp [selections, madeOf_nil, union_empty]
    | succ k => simp [selections, madeOf_nil]
  | cons options lists ih =>
    cases k with
    | zero => simp [selections, madeOf_zero, union_empty]
    | succ k =>
      have split : (∃ l ∈ selections (k + 1) (options :: lists),
            t ∈ l.foldl (fun partials options => partials.flatMap fun p => options.map (p ∪ ·)) begun) ↔
          (∃ p ∈ begun.flatMap fun p => options.map (p ∪ ·),
            ∃ u, MadeOf k (lists.map fun options o => o ∈ options) u ∧ t = p ∪ u) ∨
          ∃ p ∈ begun, ∃ u, MadeOf (k + 1) (lists.map fun options o => o ∈ options) u ∧ t = p ∪ u := by
        rw [← ih, ← ih]
        simp only [selections, List.mem_append, List.mem_map, or_and_right, exists_or, exists_exists_and_eq_and,
          List.foldl_cons]
      rw [split]
      simp only [List.map_cons, madeOf_cons_succ, List.mem_flatMap, List.mem_map]
      constructor
      · rintro (⟨_, ⟨p, hp, o, ho, rfl⟩, u, hu, rfl⟩ | ⟨p, hp, u, hu, rfl⟩)
        · exact ⟨p, hp, o ∪ u, Or.inl ⟨o, ho, u, hu, rfl⟩, union_assoc p o u⟩
        · exact ⟨p, hp, u, Or.inr hu, rfl⟩
      · rintro ⟨p, hp, _, ⟨o, ho, u, hu, rfl⟩ | hu, rfl⟩
        · exact Or.inl ⟨p ∪ o, ⟨p, hp, o, ho, rfl⟩, u, hu, (union_assoc p o u).symm⟩
        · exact Or.inr ⟨p, hp, _, hu, rfl⟩

theorem exists_selection_unions_iff {lists : List (List NodeSet)} :
    (∃ l ∈ selections k lists, t ∈ unions l) ↔ MadeOf k (lists.map fun options o => o ∈ options) t := by
  unfold unions
  rw [exists_selection_foldl_iff]
  simp [empty_union]

/-- a member that nothing can be taken for makes no difference -/
theorem madeOf_filter {lists : List (List NodeSet)} :
    MadeOf k ((lists.filter (!·.isEmpty)).map fun options o => o ∈ options) t ↔
      MadeOf k (lists.map fun options o => o ∈ options) t := by
  induction lists generalizing k t with
  | nil => exact Iff.rfl
  | cons options lists ih =>
    cases k with
    | zero => rw [madeOf_zero, madeOf_zero]
    | succ k =>
      rw [List.map_cons, madeOf_cons_succ]
      cases options with
      | nil => simp [ih]
      | cons o options => simp [madeOf_cons_succ, ih]

/-! ## Members that are apart -/

/-- within `u`, members are apart: no node of it is in sets that can be taken for two of them, and of the sets that can be
taken for one of them none holds another -/
structure Separate (u : NodeSet) (members : List (NodeSet → Prop)) : Prop where
  apart : members.Pairwise fun A B => ∀ o p, A o → B p → ∀ v ∈ u, v ∈ o → v ∉ p
  inhabited : ∀ A ∈ members, ∀ o, A o → ∃ v, v ∈ o
  least : ∀ A ∈ members, ∀ o p, A o → A p → o ⊆ p → p ⊆ u → o = p

theorem Separate.tail (h : Separate u (A :: members)) : Separate u members where
  apart := (List.pairwise_cons.1 h.apart).2
  inhabited B hB := h.inhabited B (List.mem_cons_of_mem A hB)
  least B hB := h.least B (List.mem_cons_of_mem A hB)

/-- what is taken for the first member has nothing in common with what is made of the others -/
theorem Separate.not_mem_rest (h : Separate u (A :: members)) {o : NodeSet} (option : A o) (rest : MadeOf k members t)
    {v : NodeId} (hu : v ∈ u) (hv : v ∈ o) : v ∉ t := by
  intro hvt
  obtain ⟨B, hB, p, hp, hvp⟩ := rest.mem hvt
  exact (List.pairwise_cons.1 h.apart).1 B hB o p option hp v hu hv hvp

/-- what is made of the members behind the first needs nothing of what is taken for the first -/
theorem Separate.subset_rest (h : Separate u (A :: members)) {p : NodeSet} (option : A p) (rest : MadeOf k members s)
    (within : s ⊆ p ∪ t) (inside : p ∪ t ⊆ u) : s ⊆ t := by
  intro v hv
  have hvt := within v hv
  refine (SortedSet.mem_union.1 hvt).resolve_left fun hvp => ?_
  exact h.not_mem_rest option rest (inside v hvt) hvp hv

/-- **No more within.** Of members that are apart, a set that is made of `j` of them lies within one that is made of no
more than `j` only if it is the same. -/
theorem MadeOf.eq_of_subset (hs : MadeOf j members s) (ht : MadeOf k members t) (separate : Separate u members)
    (within : s ⊆ t) (inside : t ⊆ u) (fewer : k ≤ j) : k = j ∧ s = t := by
  induction hs generalizing k t with
  | nothing =>
    obtain ⟨rfl, rfl⟩ := madeOf_nil.1 ht
    exact ⟨rfl, rfl⟩
  | @take j A members o s option rest ih =>
    obtain ⟨first, others⟩ := union_subset_iff.1 within
    cases ht with
    | @take k _ _ p t option' rest' =>
      have same : o = p := by
        refine separate.least A List.mem_cons_self o p option option' (fun v hv => ?_) (union_subset_iff.1 inside).1
        have hvt := first v hv
        exact (SortedSet.mem_union.1 hvt).resolve_right (separate.not_mem_rest option rest' (inside v hvt) hv)
      have remaining : s ⊆ t := separate.subset_rest option' rest others inside
      obtain ⟨rfl, rfl⟩ := ih rest' separate.tail remaining (union_subset_iff.1 inside).2 (Nat.le_of_succ_le_succ fewer)
      exact ⟨rfl, by rw [same]⟩
    | skip rest' =>
      obtain ⟨v, hv⟩ := separate.inhabited A List.mem_cons_self o option
      exact absurd (first v hv) (separate.not_mem_rest option rest' (inside v (first v hv)) hv)
  | @skip j A members s rest ih =>
    cases ht with
    | @take k _ _ p t option' rest' =>
      have remaining : s ⊆ t := separate.subset_rest option' rest within inside
      have equal := (ih rest' separate.tail remaining (union_subset_iff.1 inside).2 (Nat.le_of_succ_le fewer)).1
      omega
    | skip rest' => exact ih rest' separate.tail within inside fewer

theorem MadeOf.inhabited (h : MadeOf (k + 1) members t) (each : ∀ A ∈ members, ∀ o, A o → ∃ v, v ∈ o) :
    ∃ v, v ∈ t := by
  induction members with
  | nil => exact absurd (madeOf_nil.1 h).1 (Nat.succ_ne_zero k)
  | cons A members ih =>
    rcases madeOf_cons_succ.1 h with ⟨o, option, u, _, rfl⟩ | rest
    · obtain ⟨v, hv⟩ := each A List.mem_cons_self o option
      exact ⟨v, SortedSet.mem_union.2 (Or.inl hv)⟩
    · exact ih rest fun B hB => each B (List.mem_cons_of_mem A hB)

end

/-! ## Slices of trees -/

namespace TrustTree

variable {q : TrustTree} {s t : NodeSet}

/-- the members of a tree, by the sets that can be taken for them: a validator alone, and each slice of an inner tree -/
def members (q : TrustTree) : List (NodeSet → Prop) :=
  q.validators.map (fun v s => s = {v}) ++ q.inner.map fun r s => s ∈ r.slices

theorem forall_mem_members {P : (NodeSet → Prop) → Prop} :
    (∀ A ∈ q.members, P A) ↔ (∀ v ∈ q.validators, P fun s => s = {v}) ∧ ∀ r ∈ q.inner, P fun s => s ∈ r.slices := by
  rw [members, List.forall_mem_append, List.forall_mem_map, List.forall_mem_map]

/-- **Slices by members.** The listed slices of a tree are made of as many members as its threshold says. -/
theorem mem_slices_iff : t ∈ q.slices ↔ 0 < q.memberCount ∧ MadeOf q.threshold q.members t := by
  have singles : (q.validators.map fun v => [SortedSet.singleton v]).filter (!·.isEmpty) =
      q.validators.map fun v => [SortedSet.singleton v] := by
    rw [List.filter_eq_self]
    intro options h
    obtain ⟨v, _, rfl⟩ := List.mem_map.1 h
    rfl
  have single : ∀ v : NodeId, (fun s : NodeSet => s ∈ [SortedSet.singleton v]) = fun s => s = {v} := by
    intro v
    funext s
    exact propext List.mem_singleton
  rw [mem_slices, exists_selection_unions_iff, ← singles, ← List.filter_append, madeOf_filter, List.map_append,
    List.map_map, List.map_map, members]
  simp only [Function.comp_def, single]

mutual

/-- the validators in all places where they are named, at any depth -/
def mentions : TrustTree → List NodeId
  | ⟨_, vs, qs⟩ => vs ++ mentionsAll qs

def mentionsAll : List TrustTree → List NodeId
  | [] => []
  | q :: qs => mentions q ++ mentionsAll qs

end

theorem mentionsAll_eq_flatMap (qs : List TrustTree) : mentionsAll qs = qs.flatMap mentions := by
  induction qs with
  | nil => rfl
  | cons q qs ih => rw [mentionsAll, ih, List.flatMap_cons]

theorem mentions_eq (q : TrustTree) : q.mentions = q.validators ++ q.inner.flatMap mentions := by
  obtain ⟨threshold, vs, qs⟩ := q
  rw [mentions, mentionsAll_eq_flatMap]

theorem mem_mentions {v : NodeId} : v ∈ q.mentions ↔ v ∈ q.validatorSet := by
  induction q using induct with
  | step q ih =>
    rw [mentions_eq, List.mem_append, List.mem_flatMap, mem_validatorSet]
    exact or_congr_right (exists_congr fun r => and_congr_right fun hr => ih r hr)

/-- an inner tree names no node more often than the whole tree -/
theorem count_mentions_inner {r : TrustTree} (hr : r ∈ q.inner) (v : NodeId) :
    r.mentions.count v ≤ q.mentions.count v := by
  have part : r.mentions.Sublist (q.inner.flatMap mentions) := by
    rw [List.flatMap_def]
    exact List.sublist_flatten_of_mem (List.mem_map_of_mem hr)
  rw [q.mentions_eq]
  exact (part.trans (List.sublist_append_right _ _)).count_le v

/-- trees that together name each node of a set once have none of these nodes in common -/
theorem pairwise_of_count_mentions {qs : List TrustTree} (once : ∀ v ∈ t, (qs.flatMap mentions).count v ≤ 1) :
    qs.Pairwise fun r r' => ∀ v ∈ t, v ∈ r.mentions → v ∉ r'.mentions := by
  induction qs with
  | nil => exact List.Pairwise.nil
  | cons q qs ih =>
    simp only [List.flatMap_cons, List.count_append] at once
    refine List.pairwise_cons.2 ⟨fun r hr v hv here there => ?_, ih fun v hv => ?_⟩
    · have first := List.count_pos_iff.2 here
      have second := List.count_pos_iff.2 (List.mem_flatMap.2 ⟨r, hr, there⟩)
      have := once v hv
      omega
    · have := once v hv
      omega

/-- there is a node in each set that can be taken for a member, if so in the slices of inner trees -/
theorem members_inhabited (inner : ∀ r ∈ q.inner, ∀ o ∈ r.slices, ∃ v, v ∈ o) :
    ∀ A ∈ q.members, ∀ o, A o → ∃ v, v ∈ o := by
  refine forall_mem_members.2 ⟨fun v _ o single => ⟨v, ?_⟩, inner⟩
  rw [single]
  exact SortedSet.mem_singleton.2 rfl

theorem slice_inhabited (h : q.consistent = true) (ht : t ∈ q.slices) : ∃ v, v ∈ t := by
  induction q using induct generalizing t with
  | step q ih =>
    obtain ⟨level, inner⟩ := consistent_iff.1 h
    obtain ⟨k, hk⟩ := Nat.exists_eq_add_of_le' level.1
    have made := (mem_slices_iff.1 ht).2
    rw [hk] at made
    exact made.inhabited (members_inhabited fun r hr o ho => ih r hr (inner r hr) ho)

/-- where a tree names no node of `t` twice, its members are apart within `t`, if each inner tree lists no slice that holds
another -/
theorem separate_members (h : q.consistent = true) (once : ∀ v ∈ t, q.mentions.count v ≤ 1)
    (least : ∀ r ∈ q.inner, ∀ o ∈ r.slices, ∀ p ∈ r.slices, o ⊆ p → p ⊆ t → o = p) : Separate t q.members where
  apart := by
    have named : ∀ {r : TrustTree} {o : NodeSet} {v : NodeId}, o ∈ r.slices → v ∈ o → v ∈ r.mentions :=
      fun ho hv => mem_mentions.2 (slice_subset_validatorSet ho _ hv)
    simp only [mentions_eq, List.count_append] at once
    rw [members, List.pairwise_append, List.pairwise_map, List.pairwise_map]
    refine ⟨?_, ?_, ?_⟩
    · refine (consistent_iff.1 h).1.2.1.imp ?_
      rintro v w different _ _ rfl rfl x _ hv hw
      exact different ((SortedSet.mem_singleton.1 hv).symm.trans (SortedSet.mem_singleton.1 hw))
    · refine (pairwise_of_count_mentions fun v hv => Nat.le_of_add_left_le (once v hv)).imp ?_
      intro r r' unshared o p ho hp v hv hvo hvp
      exact unshared v hv (named ho hvo) (named hp hvp)
    · intro A hA B hB
      obtain ⟨w, hw, rfl⟩ := List.mem_map.1 hA
      obtain ⟨r, hr, rfl⟩ := List.mem_map.1 hB
      rintro _ p rfl hp v hv hvo hvp
      rw [SortedSet.mem_singleton.1 hvo] at hv hvp
      have here := List.count_pos_iff.2 hw
      have there := List.count_pos_iff.2 (List.mem_flatMap.2 ⟨r, hr, named hp hvp⟩)
      have := once w hv
      omega
  inhabited := members_inhabited fun r hr o ho => slice_inhabited ((consistent_iff.1 h).2 r hr) ho
  least := by
    refine forall_mem_members.2 ⟨fun v _ o p ho hp _ _ => ho.trans hp.symm, ?_⟩
    intro r hr o p ho hp
    exact least r hr o ho p hp

/-- **No slice within.** A listed slice of which no node is named twice holds no other listed slice. -/
theorem slice_eq_of_subset (h : q.consistent = true) (hs : s ∈ q.slices) (ht : t ∈ q.slices)
    (once : ∀ v ∈ t, q.mentions.count v ≤ 1) (within : s ⊆ t) : s = t := by
  induction q using induct generalizing s t with
  | step q ih =>
    have least : ∀ r ∈ q.inner, ∀ o ∈ r.slices, ∀ p ∈ r.slices, o ⊆ p → p ⊆ t → o = p := by
      intro r hr o ho p hp below inside
      refine ih r hr ((consistent_iff.1 h).2 r hr) ho hp (fun v hv => ?_) below
      exact Nat.le_trans (count_mentions_inner hr v) (once v (inside v hv))
    have made := (mem_slices_iff.1 hs).2
    have made' := (mem_slices_iff.1 ht).2
    exact (made.eq_of_subset made' (separate_members h once least) within (SortedSet.Subset.refl t) (Nat.le_refl _)).2

end TrustTree

/-! ## Minimal slices -/

namespace QuorumSet

/-- the set satisfies the quorum set, and no smaller part of it does -/
def IsMinimalSlice (q : QuorumSet) (s : NodeSet) : Prop :=
  q.isSlice s = true ∧ ∀ u, u ⊆ s → q.isSlice u = true → u = s

variable {q : QuorumSet} {s t : NodeSet}

theorem isSlice_of_mem_slices (h : t ∈ q.slices) : q.isSlice t = true :=
  q.isSlice_iff_exists_slice.2 ⟨t, h, SortedSet.Subset.refl t⟩

/-- a minimal set is a listed one, since one is listed within it -/
theorem IsMinimalSlice.mem_slices (h : q.IsMinimalSlice s) : s ∈ q.slices := by
  obtain ⟨t, listed, within⟩ := q.isSlice_iff_exists_slice.1 h.1
  rw [← h.2 t within (isSlice_of_mem_slices listed)]
  exact listed

/-- a listed set is minimal if it holds no other listed one -/
theorem isMinimalSlice_of_least (h : t ∈ q.slices) (least : ∀ s ∈ q.slices, s ⊆ t → s = t) : q.IsMinimalSlice t := by
  refine ⟨isSlice_of_mem_slices h, fun u within enough => ?_⟩
  obtain ⟨s, listed, inside⟩ := q.isSlice_iff_exists_slice.1 enough
  have same := least s listed (SortedSet.Subset.trans inside within)
  exact SortedSet.Subset.antisymm within (same ▸ inside)

/-- **The minimal slices.** All minimal sets that satisfy a quorum set are listed, and what is listed satisfies it. A listed
set is minimal if none of its nodes is named in two places of the quorum set. So if no node is named twice at all, no listed
set is part of another, and just the minimal sets are listed. -/
theorem minimal_slices_listed (q : QuorumSet) :
    (∀ s, q.IsMinimalSlice s → s ∈ q.slices) ∧ (∀ t ∈ q.slices, q.isSlice t = true) ∧
    (∀ t ∈ q.slices, (∀ v ∈ t, q.tree.mentions.count v ≤ 1) → q.IsMinimalSlice t) ∧
    (q.tree.mentions.Nodup →
      (∀ s ∈ q.slices, ∀ t ∈ q.slices, s ⊆ t → s = t) ∧ ∀ s, s ∈ q.slices ↔ q.IsMinimalSlice s) := by
  have least : ∀ t ∈ q.slices, (∀ v ∈ t, q.tree.mentions.count v ≤ 1) → ∀ s ∈ q.slices, s ⊆ t → s = t :=
    fun t ht once s hs within => TrustTree.slice_eq_of_subset q.consistent hs ht once within
  have minimal : ∀ t ∈ q.slices, (∀ v ∈ t, q.tree.mentions.count v ≤ 1) → q.IsMinimalSlice t :=
    fun t ht once => isMinimalSlice_of_least ht (least t ht once)
  refine ⟨fun s => IsMinimalSlice.mem_slices, fun t => isSlice_of_mem_slices, minimal, fun nodup => ?_⟩
  have once : ∀ v, q.tree.mentions.count v ≤ 1 := List.nodup_iff_count_le_one.1 nodup
  exact ⟨fun s hs t ht => least t ht (fun v _ => once v) s hs,
    fun s => ⟨fun hs => minimal s hs fun v _ => once v, IsMinimalSlice.mem_slices⟩⟩

/-- two of "A", one of "B" and "C", and both "D" and "E" -/
def oneOfEachSort : QuorumSet := ⟨⟨2, ["A"], [⟨1, ["B", "C"], []⟩, ⟨2, ["D", "E"], []⟩]⟩, by decide⟩

/-- the same with "B" as a member of its own, too -/
def withFavourite : QuorumSet := ⟨⟨2, ["A", "B"], [⟨1, ["B", "C"], []⟩, ⟨2, ["D", "E"], []⟩]⟩, by decide⟩

/-- no node is named twice in the first quorum set, so what is listed is minimal; "B" is in the second, where "B" and "C"
together are listed behind "B" alone, but a slice without "B" is minimal -/
theorem oneOfEachSort_minimal :
    oneOfEachSort.tree.mentions.Nodup ∧
    oneOfEachSort.slices =
      [.ofList ["A", "B"], .ofList ["A", "C"], .ofList ["A", "D", "E"], .ofList ["B", "D", "E"],
        .ofList ["C", "D", "E"]] ∧
    (∀ s, s ∈ oneOfEachSort.slices ↔ oneOfEachSort.IsMinimalSlice s) ∧
    .ofList ["B"] ∈ withFavourite.slices ∧ .ofList ["B", "C"] ∈ withFavourite.slices ∧
    .ofList ["C", "D", "E"] ∈ withFavourite.slices ∧
    (∀ v ∈ SortedSet.ofList ["C", "D", "E"], withFavourite.tree.mentions.count v ≤ 1) ∧
    withFavourite.IsMinimalSlice (.ofList ["C", "D", "E"]) := by
  have nodup : oneOfEachSort.tree.mentions.Nodup := by decide
  have listed : .ofList ["C", "D", "E"] ∈ withFavourite.slices := by decide
  have once : ∀ v ∈ SortedSet.ofList ["C", "D", "E"], withFavourite.tree.mentions.count v ≤ 1 := by decide
  obtain ⟨_, _, _, distinct⟩ := minimal_slices_listed oneOfEachSort
  obtain ⟨_, _, minimal, _⟩ := minimal_slices_listed withFavourite
  exact ⟨nodup, by decide, (distinct nodup).2, by decide, by decide, listed, once, minimal _ listed once⟩

/-- "A" alone, or "A" and "B" both -/
def aloneOrBoth : QuorumSet := ⟨⟨1, ["A"], [⟨2, ["A", "B"], []⟩]⟩, by decide⟩

/-- **A superfluous slice.** "A" is named twice, and the slice of "A" and "B" is listed, although "A" alone is a slice. -/
theorem aloneOrBoth_superfluous :
    aloneOrBoth.slices = [.ofList ["A"], .ofList ["A", "B"]] ∧
    SortedSet.ofList ["A"] ⊆ SortedSet.ofList ["A", "B"] ∧ SortedSet.ofList ["A"] ≠ SortedSet.ofList ["A", "B"] ∧
    ¬ aloneOrBoth.IsMinimalSlice (.ofList ["A", "B"]) := by
  refine ⟨by decide, by decide, by decide, fun minimal => ?_⟩
  have same := minimal.2 (.ofList ["A"]) (by decide) (by decide)
  exact absurd same (by decide)

end QuorumSet

end FederatedAgreement
