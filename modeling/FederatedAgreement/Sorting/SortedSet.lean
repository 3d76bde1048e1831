/-
Finite sets as strictly ascending lists. A set has one such list, so equal sets are equal values, and the list is
already in the order in which answers show it.

Results:
- `SortedSet.ext`: sets with the same members are equal.
- `mem_insert`, `mem_ofList`, `mem_union`, `mem_inter`, `mem_diff`, `mem_filter`, `mem_erase`: each operation by its
  members.
-/
import FederatedAgreement.Sorting.Ascending

namespace FederatedAgreement.Sorting

/-- a finite set, as its members from the lowest to the highest -/
structure SortedSet (α : Type) [LT α] where
  toList : List α
  ascending : toList.Pairwise (· < ·)
deriving DecidableEq

namespace SortedSet

/-! ## Membership -/

section
variable {α : Type} [LT α]

instance : Membership α (SortedSet α) := ⟨fun s a => a ∈ s.toList⟩

theorem mem_def {a : α} {s : SortedSet α} : a ∈ s ↔ a ∈ s.toList := Iff.rfl

instance [DecidableEq α] (a : α) (s : SortedSet α) : Decidable (a ∈ s) := inferInstanceAs (Decidable (a ∈ s.toList))

instance : HasSubset (SortedSet α) := ⟨fun s t => ∀ a, a ∈ s → a ∈ t⟩

theorem subset_def {s t : SortedSet α} : s ⊆ t ↔ ∀ a, a ∈ s → a ∈ t := Iff.rfl

instance [DecidableEq α] (s t : SortedSet α) : Decidable (s ⊆ t) :=
  inferInstanceAs (Decidable (∀ a, a ∈ s.toList → a ∈ t.toList))

theorem Subset.refl (s : SortedSet α) : s ⊆ s := fun _ h => h

theorem Subset.trans {s t u : SortedSet α} (h : s ⊆ t) (h' : t ⊆ u) : s ⊆ u := fun a ha => h' a (h a ha)

/-- the set without members -/
def empty : SortedSet α := ⟨[], List.Pairwise.nil⟩

instance : EmptyCollection (SortedSet α) := ⟨empty⟩

instance : Inhabited (SortedSet α) := ⟨empty⟩

@[simp] theorem not_mem_empty (a : α) : a ∉ (∅ : SortedSet α) := List.not_mem_nil

/-- the set of one member -/
def singleton (a : α) : SortedSet α := ⟨[a], List.pairwise_singleton _ _⟩

instance : Singleton α (SortedSet α) := ⟨singleton⟩

@[simp] theorem mem_singleton {a b : α} : a ∈ ({b} : SortedSet α) ↔ a = b := List.mem_singleton

/-- how many members a set has -/
def size (s : SortedSet α) : Nat := s.toList.length

/-- the members that pass a test -/
def filter (p : α → Bool) (s : SortedSet α) : SortedSet α := ⟨s.toList.filter p, s.ascending.filter p⟩

@[simp] theorem mem_filter {p : α → Bool} {a : α} {s : SortedSet α} : a ∈ s.filter p ↔ a ∈ s ∧ p a = true :=
  List.mem_filter

variable [DecidableEq α]

/-- the members of both sets -/
def inter (s t : SortedSet α) : SortedSet α := s.filter (· ∈ t)

instance : Inter (SortedSet α) := ⟨inter⟩

@[simp] theorem mem_inter {a : α} {s t : SortedSet α} : a ∈ s ∩ t ↔ a ∈ s ∧ a ∈ t := by
  show a ∈ s.filter (· ∈ t) ↔ _
  simp

/-- the members of the first set that the second lacks -/
def diff (s t : SortedSet α) : SortedSet α := s.filter (· ∉ t)

instance : SDiff (SortedSet α) := ⟨diff⟩

@[simp] theorem mem_diff {a : α} {s t : SortedSet α} : a ∈ s \ t ↔ a ∈ s ∧ a ∉ t := by
  show a ∈ s.filter (· ∉ t) ↔ _
  simp

/-- the set without one member -/
def erase (s : SortedSet α) (a : α) : SortedSet α := s.filter (· ≠ a)

@[simp] theorem mem_erase {a b : α} {s : SortedSet α} : a ∈ s.erase b ↔ a ∈ s ∧ a ≠ b := by
  simp [erase]

end

/-! ## Equality -/

section
variable {α : Type} [LT α] [StrictTotal α]

theorem nodup_of_ascending {l : List α} (h : l.Pairwise (· < ·)) : l.Nodup := by
  refine List.Pairwise.imp (fun {a b} hab => ?_) h
  rintro rfl
  exact StrictTotal.irrefl _ hab

/-- **One list per set.** Sets with the same members are equal. -/
@[ext] theorem ext {s t : SortedSet α} (h : ∀ a, a ∈ s ↔ a ∈ t) : s = t := by
  obtain ⟨l, hl⟩ := s
  obtain ⟨m, hm⟩ := t
  have perm : l.Perm m := (List.perm_ext_iff_of_nodup (nodup_of_ascending hl) (nodup_of_ascending hm)).2 h
  have : l = m := Sorted.eq_of_perm (hl.imp asymm) (hm.imp asymm) perm
  subst this
  rfl

theorem Subset.antisymm {s t : SortedSet α} (h : s ⊆ t) (h' : t ⊆ s) : s = t := ext fun a => ⟨h a, h' a⟩

theorem nodup (s : SortedSet α) : s.toList.Nodup := nodup_of_ascending s.ascending

end

/-! ## Growing -/

variable {α : Type} [LT α] [DecidableLT α]

/-- add `a` at its place in an ascending list, unless it is there -/
def addTo (a : α) : List α → List α
  | [] => [a]
  | b :: bs => if b < a then b :: addTo a bs else if a < b then a :: b :: bs else b :: bs

variable [StrictTotal α]

theorem mem_addTo {a b : α} {l : List α} : b ∈ addTo a l ↔ b = a ∨ b ∈ l := by
  induction l with
  | nil => simp [addTo]
  | cons c cs ih =>
    simp only [addTo]
    split
    · simp only [List.mem_cons, ih]
      exact ⟨fun h => h.elim (fun e => .inr (.inl e)) (·.elim .inl (.inr ∘ .inr)),
        fun h => h.elim (.inr ∘ .inl) (·.elim .inl (.inr ∘ .inr))⟩
    · split
      · simp
      · next hca hac =>
        have e : a = c := by
          rcases StrictTotal.trichotomy a c with h | h | h
          · exact absurd h hac
          · exact h
          · exact absurd h hca
        subst e
        simp

theorem addTo_ascending (a : α) {l : List α} (h : l.Pairwise (· < ·)) : (addTo a l).Pairwise (· < ·) := by
  induction l with
  | nil => exact List.pairwise_singleton _ _
  | cons b bs ih =>
    have hb := List.pairwise_cons.1 h
    simp only [addTo]
    split
    · next hba =>
      refine List.pairwise_cons.2 ⟨fun c hc => ?_, ih hb.2⟩
      rcases mem_addTo.1 hc with rfl | hc
      · exact hba
      · exact hb.1 c hc
    · split
      · next hab =>
        refine List.pairwise_cons.2 ⟨fun c hc => ?_, h⟩
        rcases List.mem_cons.1 hc with rfl | hc
        · exact hab
        · exact StrictTotal.trans hab (hb.1 c hc)
      · exact h

/-- the set with one more member -/
def insert (a : α) (s : SortedSet α) : SortedSet α := ⟨addTo a s.toList, addTo_ascending a s.ascending⟩

@[simp] theorem mem_insert {a b : α} {s : SortedSet α} : b ∈ s.insert a ↔ b = a ∨ b ∈ s := mem_addTo

/-- the members of either set -/
def union (s t : SortedSet α) : SortedSet α := s.toList.foldr insert t

instance : Union (SortedSet α) := ⟨union⟩

theorem mem_foldr_insert {a : α} {l : List α} {s : SortedSet α} : a ∈ l.foldr insert s ↔ a ∈ l ∨ a ∈ s := by
  induction l with
  | nil => simp
  | cons b bs ih => simp [ih, or_assoc]

@[simp] theorem mem_union {a : α} {s t : SortedSet α} : a ∈ s ∪ t ↔ a ∈ s ∨ a ∈ t := mem_foldr_insert

/-- the set of a list's elements -/
def ofList (l : List α) : SortedSet α := l.foldr insert ∅

@[simp] theorem mem_ofList {a : α} {l : List α} : a ∈ ofList l ↔ a ∈ l := by
  show a ∈ l.foldr insert ∅ ↔ _
  simp [mem_foldr_insert]

end SortedSet

end FederatedAgreement.Sorting
