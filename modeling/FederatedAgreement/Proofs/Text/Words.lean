/-
Words, and how texts that are put together of them can be told apart. Structures and actions are shown as texts in which
names stand as they are, between a few marks. As long as names are words, which have no marks in them, such a text can
be read from the left: a part of it is over where a mark of the right kind comes.

Results:
- `append_inj_of_stops`: two texts that go on alike agree up to the first mark.
- `read_list`: so do two lists of texts with a mark before each.
- `join_inj`: joined lists are told apart.
-/
import Mathlib.Data.List.Forall2

namespace FederatedAgreement.Text

/-! ## Words -/

/-- the characters that structures and actions are put together with -/
def marks : List Char := [' ', '|', ',', ':', '[', ']', '(', ')']

/-- a name that can be told from what is around it -/
def IsWord (s : String) : Prop := s ≠ "" ∧ ∀ c ∈ s.toList, c ∉ marks

-- character by character, not by trying every character there is
instance (s : String) : Decidable (IsWord s) := @instDecidableAnd _ _ _ (List.decidableBAll _ _)

theorem IsWord.not_mem {s : String} (h : IsWord s) {c : Char} (mark : c ∈ marks) : c ∉ s.toList :=
  fun inside => h.2 c inside mark

theorem IsWord.toList_ne_nil {s : String} (h : IsWord s) : s.toList ≠ [] :=
  fun none => h.1 (String.toList_inj.1 none)

/-- a name of letters and digits only -/
def IsAlphanumeric (s : String) : Prop := s ≠ "" ∧ ∀ c ∈ s.toList, c.isAlphanum = true

-- again character by character
instance (s : String) : Decidable (IsAlphanumeric s) := @instDecidableAnd _ _ _ (List.decidableBAll _ _)

/-- no mark is a letter or a digit -/
theorem IsAlphanumeric.isWord {s : String} (h : IsAlphanumeric s) : IsWord s := by
  have other : marks.all (!·.isAlphanum) = true := by decide
  refine ⟨h.1, fun c inside mark => ?_⟩
  have apart := List.all_eq_true.1 other c mark
  rw [h.2 c inside] at apart
  cases apart

/-! ## Reading from the left -/

/-- the text is over, or goes on with a character of this kind -/
def Stops (p : Char → Prop) (l : List Char) : Prop := ∀ c ∈ l.head?, p c

theorem stops_nil (p : Char → Prop) : Stops p [] := fun _ none => absurd none (Option.not_mem_none _)

theorem stops_cons {p : Char → Prop} {c : Char} {l : List Char} : Stops p (c :: l) ↔ p c := by
  simp [Stops]

/-- two texts that go on alike agree up to the first mark -/
theorem append_inj_of_stops {p : Char → Prop} {a b rest rest' : List Char} (ha : ∀ c ∈ a, ¬ p c)
    (hb : ∀ c ∈ b, ¬ p c) (stops : Stops p rest) (stops' : Stops p rest') (h : a ++ rest = b ++ rest') :
    a = b ∧ rest = rest' := by
  induction a generalizing b with
  | nil =>
    cases b with
    | nil => exact ⟨rfl, h⟩
    | cons c b =>
      rw [List.nil_append, List.cons_append] at h
      rw [h, stops_cons] at stops
      exact absurd stops (hb c List.mem_cons_self)
  | cons c a ih =>
    cases b with
    | nil =>
      rw [List.nil_append, List.cons_append] at h
      rw [← h, stops_cons] at stops'
      exact absurd stops' (ha c List.mem_cons_self)
    | cons d b =>
      obtain ⟨rfl, later⟩ := List.cons.inj h
      obtain ⟨rfl, rests⟩ := ih (fun e he => ha e (List.mem_cons_of_mem c he))
        (fun e he => hb e (List.mem_cons_of_mem c he)) later
      exact ⟨rfl, rests⟩

/-- two texts that go on alike agree up to a mark that both have -/
theorem append_cons_inj {mark : Char} {a b rest rest' : List Char} (ha : mark ∉ a) (hb : mark ∉ b)
    (h : a ++ mark :: rest = b ++ mark :: rest') : a = b ∧ rest = rest' := by
  have other : ∀ l : List Char, mark ∉ l → ∀ c ∈ l, c ≠ mark := fun l absent c hc => ne_of_mem_of_not_mem hc absent
  obtain ⟨same, rests⟩ := append_inj_of_stops (other a ha) (other b hb) (stops_cons.2 rfl) (stops_cons.2 rfl) h
  exact ⟨same, (List.cons.inj rests).2⟩

/-! ## Lists of texts -/

/-- the texts, with a mark before each -/
def trail {α : Type} (mark : Char) (code : α → List Char) (l : List α) : List Char := l.flatMap fun a => mark :: code a

section
variable {α : Type} {mark : Char} {code : α → List Char}

theorem trail_cons (a : α) (l : List α) : trail mark code (a :: l) = mark :: (code a ++ trail mark code l) := by
  simp [trail]

theorem trail_append (l m : List α) : trail mark code (l ++ m) = trail mark code l ++ trail mark code m := by
  simp [trail]

theorem trail_map {β : Type} (f : β → α) (l : List β) : trail mark code (l.map f) = trail mark (code ∘ f) l := by
  simp [trail, List.flatMap_map]

/-- what comes after a text of the list, or after the list, is a mark -/
theorem stops_trail {p : Char → Prop} (stop : p mark) (l : List α) {rest : List Char} (stops : Stops p rest) :
    Stops p (trail mark code l ++ rest) := by
  cases l with
  | nil => exact stops
  | cons a l =>
    rw [trail_cons, List.cons_append, stops_cons]
    exact stop

/-- if each text can be read up to where it stops, and the end of a list differs from one more text, then lists of texts
can be read -/
theorem read_list {p : Char → Prop} {R : α → α → Prop} {as bs : List α} {rest rest' : List Char} (stop : p mark)
    (stops : Stops p rest) (stops' : Stops p rest')
    (reads : ∀ a ∈ as, ∀ b ∈ bs, ∀ r r', Stops p r → Stops p r' → code a ++ r = code b ++ r' → R a b ∧ r = r')
    (ended : ∀ b ∈ bs, ∀ r, rest ≠ mark :: (code b ++ r)) (ended' : ∀ a ∈ as, ∀ r, rest' ≠ mark :: (code a ++ r))
    (h : trail mark code as ++ rest = trail mark code bs ++ rest') : List.Forall₂ R as bs ∧ rest = rest' := by
  induction as generalizing bs with
  | nil =>
    cases bs with
    | nil => exact ⟨.nil, h⟩
    | cons b bs =>
      rw [trail_cons, List.cons_append, List.append_assoc] at h
      exact absurd h (ended b List.mem_cons_self _)
  | cons a as ih =>
    cases bs with
    | nil =>
      rw [trail_cons, List.cons_append, List.append_assoc] at h
      exact absurd h.symm (ended' a List.mem_cons_self _)
    | cons b bs =>
      rw [trail_cons, trail_cons, List.cons_append, List.cons_append, List.append_assoc, List.append_assoc] at h
      obtain ⟨first, others⟩ := reads a List.mem_cons_self b List.mem_cons_self _ _ (stops_trail stop as stops)
        (stops_trail stop bs stops') (List.cons.inj h).2
      obtain ⟨pairs, rests⟩ := ih (fun a ha b hb => reads a (List.mem_cons_of_mem _ ha) b (List.mem_cons_of_mem _ hb))
        (fun b hb => ended b (List.mem_cons_of_mem _ hb)) (fun a ha => ended' a (List.mem_cons_of_mem _ ha)) others
      exact ⟨.cons first pairs, rests⟩

end

/-! ## Joined texts -/

theorem toList_join {sep : String} {mark : Char} (hsep : sep.toList = [mark]) (s : String) (l : List String) :
    (sep.intercalate (s :: l)).toList = s.toList ++ trail mark String.toList l := by
  rw [String.toList_intercalate, hsep]
  induction l generalizing s with
  | nil => simp [trail]
  | cons s' l ih =>
    have rest := ih s'
    rw [List.map_cons] at rest ⊢
    rw [List.map_cons, List.intercalate_cons_cons, rest, trail_cons, List.append_assoc]
    rfl

theorem cons_toList_join {sep : String} {mark : Char} (hsep : sep.toList = [mark]) {l : List String}
    (some_text : l ≠ []) : mark :: (sep.intercalate l).toList = trail mark String.toList l := by
  cases l with
  | nil => exact absurd rfl some_text
  | cons s l => rw [toList_join hsep, trail_cons]

/-- what holds of the mark between texts and of the characters in them holds of all characters of the joined text -/
theorem forall_mem_join {P : Char → Prop} {sep : String} {mark : Char} (hsep : sep.toList = [mark]) {l : List String}
    (between : P mark) (each : ∀ s ∈ l, ∀ c ∈ s.toList, P c) : ∀ c ∈ (sep.intercalate l).toList, P c := by
  rw [String.toList_intercalate, hsep]
  induction l with
  | nil => exact fun c none => absurd none List.not_mem_nil
  | cons s l ih =>
    obtain ⟨first, others⟩ := List.forall_mem_cons.1 each
    cases l with
    | nil => simpa using first
    | cons t l =>
      rw [List.map_cons, List.map_cons, List.intercalate_cons_cons, List.forall_mem_append, List.forall_mem_append]
      exact ⟨⟨first, List.forall_mem_singleton.2 between⟩, ih others⟩

/-- a character that is neither the mark nor in a text is not in the joined text -/
theorem not_mem_join {sep : String} {mark : Char} (hsep : sep.toList = [mark]) {c : Char} (other : c ≠ mark)
    {l : List String} (each : ∀ s ∈ l, c ∉ s.toList) : c ∉ (sep.intercalate l).toList := by
  have differ : ∀ d ∈ (sep.intercalate l).toList, d ≠ c :=
    forall_mem_join hsep other.symm fun s hs d inside => ne_of_mem_of_not_mem inside (each s hs)
  exact fun inside => differ c inside rfl

/-- joined lists of texts that are not empty and without the mark between them are told apart -/
theorem join_inj {sep : String} {mark : Char} (hsep : sep.toList = [mark]) {l m : List String}
    (hl : ∀ s ∈ l, s.toList ≠ [] ∧ mark ∉ s.toList) (hm : ∀ s ∈ m, s.toList ≠ [] ∧ mark ∉ s.toList)
    (h : sep.intercalate l = sep.intercalate m) : l = m := by
  have begins : ∀ s l, s.toList ≠ [] → (sep.intercalate (s :: l)).toList ≠ [] := by
    intro s l some_text none
    rw [toList_join hsep] at none
    exact some_text (List.append_eq_nil_iff.1 none).1
  cases l with
  | nil =>
    cases m with
    | nil => rfl
    | cons s m => exact absurd (congrArg String.toList h.symm) (begins s m (hm s List.mem_cons_self).1)
  | cons s l =>
    cases m with
    | nil => exact absurd (congrArg String.toList h) (begins s l (hl s List.mem_cons_self).1)
    | cons t m =>
      have marked : trail mark String.toList (s :: l) ++ [] = trail mark String.toList (t :: m) ++ [] := by
        rw [← cons_toList_join hsep (List.cons_ne_nil s l), ← cons_toList_join hsep (List.cons_ne_nil t m), h]
      have other : ∀ s : String, mark ∉ s.toList → ∀ c ∈ s.toList, c ≠ mark :=
        fun s absent c hc => ne_of_mem_of_not_mem hc absent
      obtain ⟨pairs, _⟩ := read_list (R := fun s t => s = t) (p := (· = mark)) rfl (stops_nil _) (stops_nil _)
        (fun a ha b hb r r' stops stops' same => by
          obtain ⟨texts, rests⟩ := append_inj_of_stops (other a (hl a ha).2) (other b (hm b hb).2) stops stops' same
          exact ⟨String.toList_inj.1 texts, rests⟩)
        (fun _ _ _ => nofun) (fun _ _ _ => nofun) marked
      exact List.forall₂_eq_eq_eq ▸ pairs

theorem join_words_inj {sep : String} {mark : Char} (hsep : sep.toList = [mark]) (hmark : mark ∈ marks)
    {l m : List String} (hl : ∀ s ∈ l, IsWord s) (hm : ∀ s ∈ m, IsWord s)
    (h : sep.intercalate l = sep.intercalate m) : l = m :=
  join_inj hsep (fun s hs => ⟨(hl s hs).toList_ne_nil, (hl s hs).not_mem hmark⟩)
    (fun s hs => ⟨(hm s hs).toList_ne_nil, (hm s hs).not_mem hmark⟩) h

/-! ## Numbers -/

theorem isDigit_of_mem_toString {n : Nat} {c : Char} (h : c ∈ (toString n).toList) : c.isDigit = true := by
  rw [Nat.toString_eq_repr, Nat.toList_repr] at h
  exact Nat.isDigit_of_mem_toDigits (by decide) (by decide) h

theorem toString_inj {n m : Nat} (h : (toString n).toList = (toString m).toList) : n = m := by
  rw [Nat.toString_eq_repr, Nat.toString_eq_repr, Nat.toList_repr, Nat.toList_repr] at h
  calc
    n = Nat.ofDigitChars 10 (Nat.toDigits 10 n) 0 := Nat.ofDigitChars_ten_toDigits.symm
    _ = Nat.ofDigitChars 10 (Nat.toDigits 10 m) 0 := by rw [h]
    _ = m := Nat.ofDigitChars_ten_toDigits

end FederatedAgreement.Text
