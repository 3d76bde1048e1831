/-
Quorum sets up to the order of their members. Two trees are alike if one becomes the other by rearranging validators and
inner trees at every level. Alike trees have the same canonical text and are satisfied by the same sets. Where all
validators are words, the canonical text can be read from the left, so only alike trees have the same one.

Results:
- `TrustTree.Alike.refl`, `TrustTree.Alike.symm`, `TrustTree.Alike.trans`: being alike is an equivalence.
- `TrustTree.Alike.canonical_eq`, `TrustTree.Alike.isSlice_eq`: what does not depend on the order of members.
- `TrustTree.read_canonical`: where canonical texts go on alike, the trees are alike.
- `TrustTree.canonical_eq_iff`: **canonical texts tell trees apart**, if validators are words.
-/
import FederatedAgreement.Proofs.Text.Words
import FederatedAgreement.QuorumSet.Satisfaction
import Mathlib.Data.List.Perm.Basic

namespace FederatedAgreement

open Sorting (ascending ascending_eq_iff_perm ascending_perm)
open Text (IsWord Stops stops_cons trail)

/-! ## Rearranged lists -/

/-- the second list holds, in an order of its own, elements that are related to those of the first -/
def Rearranged {α : Type} (R : α → α → Prop) : List α → List α → Prop := Relation.Comp List.Perm (List.Forall₂ R)

section
variable {α β : Type} {R : α → α → Prop} {as bs cs : List α}

/-- lists have equal texts if their elements do, one by one -/
theorem map_eq_map_iff_forall₂ {f : α → β} : as.map f = bs.map f ↔ List.Forall₂ (fun a b => f a = f b) as bs := by
  rw [← List.forall₂_eq_eq_eq, List.forall₂_map_left_iff, List.forall₂_map_right_iff]

/-- where equal texts mean related elements, lists with equal texts are related one by one -/
theorem forall₂_of_map_eq {f : α → β} (reads : ∀ a ∈ as, ∀ b ∈ bs, f a = f b → R a b) (h : as.map f = bs.map f) :
    List.Forall₂ R as bs := by
  rw [map_eq_map_iff_forall₂, List.forall₂_iff_zip] at h
  refine List.forall₂_iff_zip.2 ⟨h.1, fun {a b} pair => ?_⟩
  obtain ⟨ha, hb⟩ := List.of_mem_zip pair
  exact reads a ha b hb (h.2 pair)

/-- and lists with rearranged texts are rearranged -/
theorem rearranged_of_perm_map {f : α → β} (reads : ∀ a ∈ as, ∀ b ∈ bs, f a = f b → R a b)
    (h : (as.map f).Perm (bs.map f)) : Rearranged R as bs := by
  have texts : Relation.Comp (fun m k => m = k.map f) List.Perm (as.map f) bs := by
    rw [List.eq_map_comp_perm]
    exact h
  obtain ⟨cs, same, order⟩ := texts
  have pairs : List.Forall₂ R as cs := forall₂_of_map_eq (fun a ha c hc => reads a ha c (order.subset hc)) same
  unfold Rearranged
  rw [← List.forall₂_comp_perm_eq_perm_comp_forall₂]
  exact ⟨cs, pairs, order⟩

/-- rearranging back -/
theorem Rearranged.symm (h : Rearranged R as bs) (back : ∀ a ∈ as, ∀ b, R a b → R b a) : Rearranged R bs as := by
  obtain ⟨ms, order, pairs⟩ := h
  have inside : ∀ m ∈ ms, m ∈ as := fun m hm => order.symm.subset hm
  have reversed : List.Forall₂ R bs ms := by
    clear order
    induction pairs with
    | nil => exact .nil
    | cons related _ ih =>
      exact .cons (back _ (inside _ List.mem_cons_self) _ related) (ih fun m hm => inside m (List.mem_cons_of_mem _ hm))
  unfold Rearranged
  rw [← List.forall₂_comp_perm_eq_perm_comp_forall₂]
  exact ⟨ms, reversed, order.symm⟩

/-- rearranging twice -/
theorem Rearranged.trans (h : Rearranged R as bs) (h' : Rearranged R bs cs)
    (through : ∀ a ∈ as, ∀ b c, R a b → R b c → R a c) : Rearranged R as cs := by
  obtain ⟨ms, order, pairs⟩ := h
  obtain ⟨ns, order', pairs'⟩ := h'
  -- the second rearrangement can be done before the elements of the first are replaced
  have swapped : Relation.Comp List.Perm (List.Forall₂ R) ms ns := by
    rw [← List.forall₂_comp_perm_eq_perm_comp_forall₂]
    exact ⟨bs, pairs, order'⟩
  obtain ⟨ks, order'', firsts⟩ := swapped
  refine ⟨ks, order.trans order'', ?_⟩
  have inside : ∀ k ∈ ks, k ∈ as := fun k hk => order.symm.subset (order''.symm.subset hk)
  clear order' order''
  induction firsts generalizing cs with
  | nil => exact pairs'
  | cons first _ ih =>
    obtain ⟨c, later, second, seconds, rfl⟩ := List.forall₂_cons_left_iff.1 pairs'
    exact .cons (through _ (inside _ List.mem_cons_self) _ c first second)
      (ih seconds fun k hk => inside k (List.mem_cons_of_mem _ hk))

/-- what related elements have in common, rearranged lists have in common up to order -/
theorem Rearranged.perm_map (h : Rearranged R as bs) {f : α → β} (same : ∀ a ∈ as, ∀ b, R a b → f a = f b) :
    (as.map f).Perm (bs.map f) := by
  obtain ⟨cs, order, pairs⟩ := h
  have texts : cs.map f = bs.map f := by
    have inside : ∀ c ∈ cs, c ∈ as := fun c hc => order.symm.subset hc
    clear order
    induction pairs with
    | nil => rfl
    | cons related _ ih =>
      rw [List.map_cons, List.map_cons, same _ (inside _ List.mem_cons_self) _ related,
        ih fun c hc => inside c (List.mem_cons_of_mem _ hc)]
  rw [← texts]
  exact order.map f

end

namespace TrustTree

/-! ## Trees up to the order of members -/

/-- the trees differ in the order of validators and inner trees only, at every level -/
inductive Alike : TrustTree → TrustTree → Prop
  | level {t : Nat} {vs ws : List NodeId} {qs ps rs : List TrustTree} (validators : vs.Perm ws) (order : qs.Perm ps)
      (inner : List.Forall₂ Alike ps rs) : Alike ⟨t, vs, qs⟩ ⟨t, ws, rs⟩

variable {p q r : TrustTree} {s : NodeSet}

theorem alike_iff : Alike q r ↔
    q.threshold = r.threshold ∧ q.validators.Perm r.validators ∧ Rearranged Alike q.inner r.inner := by
  constructor
  · rintro ⟨validators, order, inner⟩
    exact ⟨rfl, validators, _, order, inner⟩
  · intro h
    cases q
    cases r
    obtain ⟨rfl, validators, _, order, inner⟩ := h
    exact .level validators order inner

theorem Alike.refl (q : TrustTree) : Alike q q := by
  induction q using induct with
  | step q ih => exact alike_iff.2 ⟨rfl, .refl _, _, .refl _, List.forall₂_same.2 ih⟩

theorem Alike.symm (h : Alike q r) : Alike r q := by
  induction q using induct generalizing r with
  | step q ih =>
    obtain ⟨threshold, validators, inner⟩ := alike_iff.1 h
    exact alike_iff.2 ⟨threshold.symm, validators.symm, inner.symm fun a ha b related => ih a ha related⟩

theorem Alike.trans (h : Alike p q) (h' : Alike q r) : Alike p r := by
  induction p using induct generalizing q r with
  | step p ih =>
    obtain ⟨threshold, validators, inner⟩ := alike_iff.1 h
    obtain ⟨threshold', validators', inner'⟩ := alike_iff.1 h'
    exact alike_iff.2 ⟨threshold.trans threshold', validators.trans validators',
      inner.trans inner' fun a ha b c first second => ih a ha first second⟩

/-- the text of one level, without its inner trees -/
def levelText (t : Nat) (vs : List NodeId) : String := toString t ++ ":[" ++ ",".intercalate (ascending vs) ++ "]"

/-- the text of the inner trees of a level; there is none if there are no inner trees -/
def innerText (qs : List TrustTree) : String :=
  if qs = [] then "" else "(" ++ ",".intercalate (ascending (qs.map canonical)) ++ ")"

theorem canonical_eq (q : TrustTree) : q.canonical = levelText q.threshold q.validators ++ innerText q.inner := by
  obtain ⟨t, vs, qs⟩ := q
  rw [canonical, canonicalAll_eq_map]
  cases qs with
  | nil => exact (String.append_empty).symm
  | cons q qs =>
    rw [innerText, if_neg (List.cons_ne_nil q qs)]
    simp only [List.map_cons, levelText, String.append_assoc]

/-- alike trees have the same text -/
theorem Alike.canonical_eq (h : Alike q r) : q.canonical = r.canonical := by
  induction q using induct generalizing r with
  | step q ih =>
    obtain ⟨threshold, validators, inner⟩ := alike_iff.1 h
    have texts := inner.perm_map (f := canonical) fun a ha b related => ih a ha related
    have none : q.inner = [] ↔ r.inner = [] := by
      rw [← List.map_eq_nil_iff (f := canonical), ← List.map_eq_nil_iff (f := canonical) (l := r.inner)]
      exact ⟨fun e => List.nil_perm.1 (e ▸ texts), fun e => List.perm_nil.1 (e ▸ texts)⟩
    rw [TrustTree.canonical_eq, TrustTree.canonical_eq, threshold, levelText, levelText, innerText, innerText,
      ascending_eq_iff_perm.2 validators, ascending_eq_iff_perm.2 texts]
    simp only [none]

/-- alike trees are satisfied by the same sets -/
theorem Alike.isSlice_eq (h : Alike q r) (s : NodeSet) : q.isSlice s = r.isSlice s := by
  induction q using induct generalizing r with
  | step q ih =>
    obtain ⟨threshold, validators, inner⟩ := alike_iff.1 h
    have satisfied := inner.perm_map (f := isSlice s) fun a ha b related => ih a ha related
    have inner_count : q.inner.countP (isSlice s) = r.inner.countP (isSlice s) := by
      have count := satisfied.countP_eq id
      rwa [List.countP_map, List.countP_map] at count
    rw [Bool.eq_iff_iff, isSlice_iff, isSlice_iff, threshold, validators.countP_eq, inner_count]

/-! ## Reading canonical texts -/

/-- every validator at any depth is a word -/
def Worded (q : TrustTree) : Prop := ∀ v ∈ q.validatorSet, IsWord v

instance (q : TrustTree) : Decidable q.Worded := inferInstanceAs (Decidable (∀ v ∈ q.validatorSet.toList, IsWord v))

theorem Worded.validators (h : q.Worded) : ∀ v ∈ q.validators, IsWord v :=
  fun v hv => h v (mem_validatorSet.2 (Or.inl hv))

theorem Worded.inner (h : q.Worded) (hr : r ∈ q.inner) : r.Worded :=
  fun v hv => h v (mem_validatorSet.2 (Or.inr ⟨r, hr, hv⟩))

variable {rest rest' : List Char}

theorem colon_not_mem_toString (t : Nat) : ':' ∉ (toString t).toList :=
  fun inside => absurd (Text.isDigit_of_mem_toString inside) (by decide)

theorem toList_levelText (t : Nat) (vs : List NodeId) (rest : List Char) :
    (levelText t vs).toList ++ rest =
      (toString t).toList ++ ':' :: '[' :: ((",".intercalate (ascending vs)).toList ++ ']' :: rest) := by
  simp [levelText]

/-- where levels go on alike, they have the same threshold and the same validators -/
theorem read_level {t t' : Nat} {vs ws : List NodeId} (hv : ∀ v ∈ vs, IsWord v) (hw : ∀ v ∈ ws, IsWord v)
    (h : (levelText t vs).toList ++ rest = (levelText t' ws).toList ++ rest') :
    t = t' ∧ vs.Perm ws ∧ rest = rest' := by
  rw [toList_levelText, toList_levelText] at h
  obtain ⟨digits, h⟩ := Text.append_cons_inj (colon_not_mem_toString t) (colon_not_mem_toString t') h
  have closed : ∀ l : List NodeId, (∀ v ∈ l, IsWord v) → ']' ∉ (",".intercalate (ascending l)).toList := by
    intro l words
    refine Text.not_mem_join rfl (by decide) fun v hv => ?_
    exact (words v (Sorting.mem_ascending.1 hv)).not_mem (by decide)
  obtain ⟨joined, rests⟩ := Text.append_cons_inj (closed vs hv) (closed ws hw) (List.cons.inj h).2
  have sorted : ascending vs = ascending ws :=
    Text.join_words_inj rfl (by decide) (fun v h => hv v (Sorting.mem_ascending.1 h))
      (fun v h => hw v (Sorting.mem_ascending.1 h)) (String.toList_inj.1 joined)
  exact ⟨Text.toString_inj digits, ascending_eq_iff_perm.1 sorted, rests⟩

/-- a text of inner trees begins with a bracket -/
theorem toList_innerText {qs : List TrustTree} (some_inner : qs ≠ []) (rest : List Char) :
    (innerText qs).toList ++ rest =
      '(' :: ((",".intercalate (ascending (qs.map canonical))).toList ++ ')' :: rest) := by
  simp [innerText, some_inner]

/-- where texts of inner trees go on alike, but not with a bracket, the trees are alike up to order, if so are single
ones -/
theorem read_inner {qs rs : List TrustTree}
    (reads : ∀ q ∈ qs, ∀ r ∈ rs, ∀ rest rest', Stops (· ≠ '(') rest → Stops (· ≠ '(') rest' →
      q.canonical.toList ++ rest = r.canonical.toList ++ rest' → Alike q r ∧ rest = rest')
    (stops : Stops (· ≠ '(') rest) (stops' : Stops (· ≠ '(') rest')
    (h : (innerText qs).toList ++ rest = (innerText rs).toList ++ rest') : Rearranged Alike qs rs ∧ rest = rest' := by
  by_cases noneq : qs = []
  · by_cases noner : rs = []
    · subst noneq noner
      exact ⟨⟨[], .nil, .nil⟩, h⟩
    · rw [toList_innerText noner, noneq] at h
      have opened : rest = '(' :: _ := h
      rw [opened, stops_cons] at stops
      exact absurd rfl stops
  · by_cases noner : rs = []
    · rw [toList_innerText noneq, noner] at h
      have opened : '(' :: _ = rest' := h
      rw [← opened, stops_cons] at stops'
      exact absurd rfl stops'
    · rw [toList_innerText noneq, toList_innerText noner] at h
      have sorted : ∀ l : List TrustTree, l ≠ [] → ascending (l.map canonical) ≠ [] := by
        intro l some_inner none
        have perm := ascending_perm (l.map canonical)
        rw [none] at perm
        exact some_inner (List.map_eq_nil_iff.1 (List.nil_perm.1 perm))
      have comma : ",".toList = [','] := rfl
      have marked : trail ',' String.toList (ascending (qs.map canonical)) ++ ')' :: rest =
          trail ',' String.toList (ascending (rs.map canonical)) ++ ')' :: rest' := by
        rw [← Text.cons_toList_join comma (sorted qs noneq), ← Text.cons_toList_join comma (sorted rs noner),
          List.cons_append, List.cons_append, (List.cons.inj h).2]
      have reads_text : ∀ s ∈ ascending (qs.map canonical), ∀ t ∈ ascending (rs.map canonical), ∀ rest rest',
          Stops (· ≠ '(') rest → Stops (· ≠ '(') rest' → s.toList ++ rest = t.toList ++ rest' →
            s = t ∧ rest = rest' := by
        intro s hs t ht rest rest' stops stops' same
        obtain ⟨q, hq, rfl⟩ := List.mem_map.1 (Sorting.mem_ascending.1 hs)
        obtain ⟨r, hr, rfl⟩ := List.mem_map.1 (Sorting.mem_ascending.1 ht)
        obtain ⟨alike, rests⟩ := reads q hq r hr rest rest' stops stops' same
        exact ⟨alike.canonical_eq, rests⟩
      obtain ⟨texts, rests⟩ := Text.read_list (by decide) (stops_cons.2 (by decide)) (stops_cons.2 (by decide))
        reads_text (fun _ _ _ => by simp) (fun _ _ _ => by simp) marked
      have order := ascending_eq_iff_perm.1 (List.forall₂_eq_eq_eq ▸ texts)
      refine ⟨rearranged_of_perm_map (fun q hq r hr same => ?_) order, (List.cons.inj rests).2⟩
      exact (reads q hq r hr [] [] (Text.stops_nil _) (Text.stops_nil _) (by rw [same])).1

/-- **Reading a tree.** Where canonical texts go on alike, but not with a bracket, the trees are alike. -/
theorem read_canonical (hq : q.Worded) (hr : r.Worded) (stops : Stops (· ≠ '(') rest) (stops' : Stops (· ≠ '(') rest')
    (h : q.canonical.toList ++ rest = r.canonical.toList ++ rest') : Alike q r ∧ rest = rest' := by
  induction q using induct generalizing r rest rest' with
  | step q ih =>
    rw [canonical_eq, canonical_eq, String.toList_append, String.toList_append, List.append_assoc,
      List.append_assoc] at h
    obtain ⟨threshold, validators, h⟩ := read_level hq.validators hr.validators h
    obtain ⟨inner, rests⟩ := read_inner (fun p hp p' hp' _ _ => ih p hp (hq.inner hp) (hr.inner hp')) stops stops' h
    exact ⟨alike_iff.2 ⟨threshold, validators, inner⟩, rests⟩

/-- **Canonical texts.** Trees whose validators are words have the same text exactly when they are alike. -/
theorem canonical_eq_iff (hq : q.Worded) (hr : r.Worded) : q.canonical = r.canonical ↔ Alike q r := by
  refine ⟨fun same => ?_, Alike.canonical_eq⟩
  exact (read_canonical hq hr (Text.stops_nil _) (Text.stops_nil _) (by rw [same])).1

/-! ## Characters of canonical texts -/

/-- a canonical text consists of digits, of marks, and of what is in the validators -/
theorem forall_mem_canonical {P : Char → Prop} (digits : ∀ c : Char, c.isDigit = true → P c)
    (marks : ∀ c ∈ [':', '[', ']', ',', '(', ')'], P c) (names : ∀ v ∈ q.validatorSet, ∀ c ∈ v.toList, P c) :
    ∀ c ∈ q.canonical.toList, P c := by
  have comma : ",".toList = [','] := rfl
  have between : P ',' := marks ',' (by decide)
  induction q using induct with
  | step q ih =>
    have level : ∀ c ∈ (levelText q.threshold q.validators).toList, P c := by
      have joined := Text.forall_mem_join comma between fun v hv =>
        names v (mem_validatorSet.2 (Or.inl (Sorting.mem_ascending.1 hv)))
      simp only [levelText, String.toList_append, List.forall_mem_append]
      exact ⟨⟨⟨fun c hc => digits c (Text.isDigit_of_mem_toString hc), by simp [marks]⟩, joined⟩, by simp [marks]⟩
    have inner : ∀ c ∈ (innerText q.inner).toList, P c := by
      have each : ∀ t ∈ ascending (q.inner.map canonical), ∀ c ∈ t.toList, P c := by
        intro t ht
        obtain ⟨r, hr, rfl⟩ := List.mem_map.1 (Sorting.mem_ascending.1 ht)
        exact ih r hr fun v hv => names v (mem_validatorSet.2 (Or.inr ⟨r, hr, hv⟩))
      have joined := Text.forall_mem_join comma between each
      rw [innerText]
      split
      · exact fun c none => absurd none List.not_mem_nil
      · simp only [String.toList_append, List.forall_mem_append]
        exact ⟨⟨by simp [marks], joined⟩, by simp [marks]⟩
    rw [canonical_eq, String.toList_append, List.forall_mem_append]
    exact ⟨level, inner⟩

/-- there are no blanks and no bars in a canonical text -/
theorem Worded.not_mem_canonical (h : q.Worded) {c : Char} (outside : c = ' ' ∨ c = '|') : c ∉ q.canonical.toList := by
  have unused : c.isDigit = false ∧ c ∉ [':', '[', ']', ',', '(', ')'] ∧ c ∈ Text.marks := by
    rcases outside with rfl | rfl <;> decide
  obtain ⟨no_digit, no_bracket, mark⟩ := unused
  have other : ∀ d ∈ q.canonical.toList, d ≠ c := by
    refine forall_mem_canonical ?_ ?_ ?_
    · rintro _ digit rfl
      exact absurd (digit.symm.trans no_digit) (by decide)
    · rintro _ bracket rfl
      exact no_bracket bracket
    · rintro v hv _ inside rfl
      exact (h v hv).not_mem mark inside
  exact fun inside => other c inside rfl

end TrustTree

end FederatedAgreement
