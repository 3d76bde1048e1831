/-
Strict total orders and ascending lists. Keys and texts are ordered by code point, and wherever an answer is "sorted"
it is `ascending`.

Results:
- `ascending_perm`: sorting only rearranges.
- `ascending_sorted`: no later element is below an earlier one.
- `ascending_eq_iff_perm`: the result depends on the elements and not on the order they came in.
-/

namespace FederatedAgreement.Sorting

/-! ## Strict total orders -/

/-- the relation `<` is a strict total order -/
class StrictTotal (α : Type) [LT α] : Prop where
  irrefl : ∀ a : α, ¬ a < a
  trans : ∀ {a b c : α}, a < b → b < c → a < c
  trichotomy : ∀ a b : α, a < b ∨ a = b ∨ b < a

instance : StrictTotal String where
  irrefl := String.lt_irrefl
  trans := String.lt_trans
  trichotomy := Std.lt_trichotomy

section
variable {α : Type} [LT α] [StrictTotal α]

theorem asymm {a b : α} (h : a < b) : ¬ b < a := fun h' => StrictTotal.irrefl a (StrictTotal.trans h h')

theorem not_lt_trans {a b c : α} (hab : ¬ b < a) (hbc : ¬ c < b) : ¬ c < a := by
  intro hca
  rcases StrictTotal.trichotomy b c with h | h | h
  · exact hab (StrictTotal.trans h hca)
  · exact hab (h ▸ hca)
  · exact hbc h

/-- no later element is below an earlier one -/
def Sorted (l : List α) : Prop := l.Pairwise fun a b => ¬ b < a

/-- two sorted rearrangements of one list are the same list -/
theorem Sorted.eq_of_perm {l m : List α} (hl : Sorted l) (hm : Sorted m) (h : l.Perm m) : l = m := by
  induction l generalizing m with
  | nil => exact (List.nil_perm.1 h).symm
  | cons a as ih =>
    cases m with
    | nil => exact absurd h.length_eq (by simp)
    | cons b bs =>
      have ha := List.pairwise_cons.1 hl
      have hb := List.pairwise_cons.1 hm
      have hab : a = b := by
        rcases List.mem_cons.1 (h.mem_iff.1 List.mem_cons_self) with e | hab
        · exact e
        · rcases List.mem_cons.1 (h.mem_iff.2 List.mem_cons_self) with e | hba
          · exact e.symm
          · rcases StrictTotal.trichotomy a b with lt | e | lt
            · exact absurd lt (hb.1 a hab)
            · exact e
            · exact absurd lt (ha.1 b hba)
      subst hab
      rw [ih ha.2 hb.2 ((List.perm_cons a).1 h)]

end

/-! ## Insertion sort -/

variable {α : Type} [LT α] [DecidableLT α]

/-- put `a` in front of the first element that is not below it -/
def place (a : α) : List α → List α
  | [] => [a]
  | b :: bs => if b < a then b :: place a bs else a :: b :: bs

/-- the elements from the lowest to the highest, repetitions kept -/
def ascending : List α → List α
  | [] => []
  | a :: as => place a (ascending as)

theorem place_perm (a : α) (l : List α) : (place a l).Perm (a :: l) := by
  induction l with
  | nil => exact List.Perm.refl _
  | cons b bs ih =>
    simp only [place]
    split
    · exact (ih.cons b).trans (List.Perm.swap a b bs)
    · exact List.Perm.refl _

theorem ascending_perm (l : List α) : (ascending l).Perm l := by
  induction l with
  | nil => exact List.Perm.refl _
  | cons a as ih => exact (place_perm a _).trans (ih.cons a)

@[simp] theorem mem_ascending {a : α} {l : List α} : a ∈ ascending l ↔ a ∈ l := (ascending_perm l).mem_iff

variable [StrictTotal α]

theorem place_sorted (a : α) {l : List α} (h : Sorted l) : Sorted (place a l) := by
  induction l with
  | nil => exact List.pairwise_cons.2 ⟨by simp, List.Pairwise.nil⟩
  | cons b bs ih =>
    have hb := List.pairwise_cons.1 h
    simp only [place]
    split
    · next hba =>
      refine List.pairwise_cons.2 ⟨fun c hc => ?_, ih hb.2⟩
      rcases List.mem_cons.1 ((place_perm a bs).mem_iff.1 hc) with rfl | hc
      · exact asymm hba
      · exact hb.1 c hc
    · next hba =>
      refine List.pairwise_cons.2 ⟨fun c hc => ?_, h⟩
      rcases List.mem_cons.1 hc with rfl | hc
      · exact hba
      · exact not_lt_trans hba (hb.1 c hc)

theorem ascending_sorted (l : List α) : Sorted (ascending l) := by
  induction l with
  | nil => exact List.Pairwise.nil
  | cons a as ih => exact place_sorted a ih

/-- **Order of arrival does not matter.** Two lists sort to the same list exactly when one rearranges the other. -/
theorem ascending_eq_iff_perm {l m : List α} : ascending l = ascending m ↔ l.Perm m :=
  ⟨fun h => (ascending_perm l).symm.trans (h ▸ ascending_perm m), fun h =>
    (ascending_sorted l).eq_of_perm (ascending_sorted m) ((ascending_perm l).trans (h.trans (ascending_perm m).symm))⟩

end FederatedAgreement.Sorting
