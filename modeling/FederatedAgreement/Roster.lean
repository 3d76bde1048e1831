/-
Rosters: values by node, in the order in which the nodes came. A node has one entry at most; a new value for a node that
is there takes the place of the old one, and a node that left and came back is last.

Results:
- `mem_iff_exists_get?`: a node is there if and only if it has a value.
- `get?_put`, `get?_erase`: each operation by what it leaves at every node.
- `ext_get?`: rosters of the same nodes in the same order, with the same values, are equal.
- `put_put`, `put_of_get?`: the last value put stays, and putting the value that is there changes nothing.
- `total_put`: what a new value means for a sum over all nodes.
- `entries_ofList`: a roster of entries of different nodes has just these entries.
- `keys_put`, `keys_erase`: each operation by the nodes and their order.
-/
import FederatedAgreement.Fault

namespace FederatedAgreement

/-- values by node, in order of arrival -/
structure Roster (α : Type) where
  entries : List (NodeId × α)
  nodup : (entries.map Prod.fst).Nodup
deriving DecidableEq

namespace Roster

variable {α β : Type}

def empty : Roster α := ⟨[], List.nodup_nil⟩

instance : EmptyCollection (Roster α) := ⟨empty⟩

instance : Inhabited (Roster α) := ⟨empty⟩

@[ext] theorem ext {r s : Roster α} (h : r.entries = s.entries) : r = s := by
  cases r; cases s; cases h; rfl

/-- the nodes, in order of arrival -/
def keys (r : Roster α) : List NodeId := r.entries.map Prod.fst

/-- the values, in order of arrival of their nodes -/
def values (r : Roster α) : List α := r.entries.map Prod.snd

def size (r : Roster α) : Nat := r.entries.length

instance : Membership NodeId (Roster α) := ⟨fun r k => k ∈ r.keys⟩

theorem mem_iff_mem_keys {k : NodeId} {r : Roster α} : k ∈ r ↔ k ∈ r.keys := Iff.rfl

instance (k : NodeId) (r : Roster α) : Decidable (k ∈ r) := inferInstanceAs (Decidable (k ∈ r.keys))

/-- the first value at a node in a list of entries -/
def lookup (k : NodeId) : List (NodeId × α) → Option α
  | [] => none
  | e :: es => if e.1 = k then some e.2 else lookup k es

/-- the value at a node -/
def get? (r : Roster α) (k : NodeId) : Option α := lookup k r.entries

theorem lookup_eq_none_iff {k : NodeId} {es : List (NodeId × α)} : lookup k es = none ↔ k ∉ es.map Prod.fst := by
  induction es with
  | nil => simp [lookup]
  | cons e es ih =>
    by_cases h : e.1 = k
    · simp [lookup, h]
    · simp [lookup, h, Ne.symm h, ih]

theorem get?_eq_none_iff {k : NodeId} {r : Roster α} : r.get? k = none ↔ k ∉ r := lookup_eq_none_iff

theorem mem_iff_exists_get? {k : NodeId} {r : Roster α} : k ∈ r ↔ ∃ a, r.get? k = some a := by
  rw [← Option.ne_none_iff_exists', ne_eq, get?_eq_none_iff, Classical.not_not]

theorem mem_of_get? {k : NodeId} {a : α} {r : Roster α} (h : r.get? k = some a) : k ∈ r :=
  mem_iff_exists_get?.2 ⟨a, h⟩

theorem mem_of_lookup {k : NodeId} {a : α} {es : List (NodeId × α)} (h : lookup k es = some a) : (k, a) ∈ es := by
  induction es with
  | nil => simp [lookup] at h
  | cons e es ih =>
    simp only [lookup] at h
    split at h
    · next hk =>
      cases h
      exact hk ▸ List.mem_cons_self
    · exact List.mem_cons_of_mem _ (ih h)

theorem lookup_of_mem {k : NodeId} {a : α} {es : List (NodeId × α)} (nodup : (es.map Prod.fst).Nodup)
    (h : (k, a) ∈ es) : lookup k es = some a := by
  induction es with
  | nil => simp at h
  | cons e es ih =>
    have hn := List.nodup_cons.1 nodup
    rcases List.mem_cons.1 h with rfl | h
    · simp [lookup]
    · have : e.1 ≠ k := fun e' => hn.1 (e' ▸ List.mem_map.2 ⟨_, h, rfl⟩)
      simp [lookup, this, ih hn.2 h]

theorem get?_eq_some_iff {k : NodeId} {a : α} {r : Roster α} : r.get? k = some a ↔ (k, a) ∈ r.entries :=
  ⟨mem_of_lookup, lookup_of_mem r.nodup⟩

theorem mem_values {a : α} {r : Roster α} : a ∈ r.values ↔ ∃ k, r.get? k = some a := by
  simp [values, get?_eq_some_iff]

/-- the nodes in their order, with the value of each, make up a roster -/
theorem ext_get? {r s : Roster α} (keys : r.keys = s.keys) (same : ∀ k, r.get? k = s.get? k) : r = s := by
  have length : r.entries.length = s.entries.length := by simpa [Roster.keys] using congrArg List.length keys
  refine ext (List.ext_getElem length fun i hi hi' => ?_)
  have key : r.entries[i].1 = s.entries[i].1 := by
    simpa [Roster.keys] using List.getElem_of_eq keys (by simpa [Roster.keys])
  have value : r.get? r.entries[i].1 = some r.entries[i].2 := get?_eq_some_iff.2 (List.getElem_mem hi)
  have value' : s.get? s.entries[i].1 = some s.entries[i].2 := get?_eq_some_iff.2 (List.getElem_mem hi')
  rw [same, key, value'] at value
  exact Prod.ext key (Option.some.inj value).symm

/-! ## One value for a node -/

/-- a value for a node, among entries -/
def putIn (k : NodeId) (a : α) : List (NodeId × α) → List (NodeId × α)
  | [] => [(k, a)]
  | e :: es => if e.1 = k then (k, a) :: es else e :: putIn k a es

theorem keys_putIn (k : NodeId) (a : α) (es : List (NodeId × α)) :
    (putIn k a es).map Prod.fst = if k ∈ es.map Prod.fst then es.map Prod.fst else es.map Prod.fst ++ [k] := by
  induction es with
  | nil => simp [putIn]
  | cons e es ih =>
    by_cases h : e.1 = k
    · simp [putIn, h]
    · simp only [putIn, h, if_false, List.map_cons, ih, List.mem_cons, Ne.symm h, false_or]
      split <;> simp

theorem lookup_putIn (k j : NodeId) (a : α) (es : List (NodeId × α)) :
    lookup j (putIn k a es) = if j = k then some a else lookup j es := by
  induction es with
  | nil => grind [putIn, lookup]
  | cons e es ih => grind [putIn, lookup]

theorem putIn_putIn (k : NodeId) (a b : α) (es : List (NodeId × α)) : putIn k b (putIn k a es) = putIn k b es := by
  induction es with
  | nil => simp [putIn]
  | cons e es ih => grind [putIn]

theorem putIn_of_lookup {k : NodeId} {a : α} {es : List (NodeId × α)} (h : lookup k es = some a) :
    putIn k a es = es := by
  induction es with
  | nil => simp [lookup] at h
  | cons e es ih => grind [putIn, lookup]

theorem putIn_of_not_mem {k : NodeId} {a : α} {es : List (NodeId × α)} (h : k ∉ es.map Prod.fst) :
    putIn k a es = es ++ [(k, a)] := by
  induction es with
  | nil => rfl
  | cons e es ih =>
    simp only [List.map_cons, List.mem_cons, not_or] at h
    rw [putIn, if_neg (Ne.symm h.1), ih h.2, List.cons_append]

/-- a value for a node: in its place if the node is there, else behind the others -/
def put (r : Roster α) (k : NodeId) (a : α) : Roster α where
  entries := putIn k a r.entries
  nodup := by
    rw [keys_putIn]
    split
    · exact r.nodup
    · next h =>
      refine List.nodup_append.2 ⟨r.nodup, List.pairwise_singleton _ _, ?_⟩
      intro x hx y hy e
      rw [List.mem_singleton.1 hy] at e
      exact h (e ▸ hx)

theorem keys_put (r : Roster α) (k : NodeId) (a : α) :
    (r.put k a).keys = if k ∈ r then r.keys else r.keys ++ [k] := keys_putIn k a r.entries

/-- a new value for a node that is there leaves the nodes as they are -/
theorem keys_put_of_get? {r : Roster α} {k : NodeId} {a : α} (h : r.get? k = some a) (b : α) :
    (r.put k b).keys = r.keys :=
  (keys_put r k b).trans (if_pos (mem_of_get? h))

theorem mem_put_of_mem {r : Roster α} {k : NodeId} (h : k ∈ r) (j : NodeId) (a : α) : k ∈ r.put j a := by
  rw [mem_iff_mem_keys, keys_put]
  split
  · exact h
  · exact List.mem_append_left _ h

theorem get?_put (r : Roster α) (k j : NodeId) (a : α) : (r.put k a).get? j = if j = k then some a else r.get? j :=
  lookup_putIn k j a r.entries

theorem put_put (r : Roster α) (k : NodeId) (a b : α) : (r.put k a).put k b = r.put k b :=
  ext (putIn_putIn k a b r.entries)

theorem put_of_get? {r : Roster α} {k : NodeId} {a : α} (h : r.get? k = some a) : r.put k a = r :=
  ext (putIn_of_lookup h)

/-- a number summed up over entries -/
def totalOf (f : α → Nat) : List (NodeId × α) → Nat
  | [] => 0
  | e :: es => f e.2 + totalOf f es

/-- a number summed up over all nodes -/
def total (f : α → Nat) (r : Roster α) : Nat := totalOf f r.entries

theorem totalOf_putIn {f : α → Nat} {k : NodeId} {a : α} (b : α) {es : List (NodeId × α)} (h : lookup k es = some a) :
    totalOf f (putIn k b es) + f a = totalOf f es + f b := by
  induction es with
  | nil => simp [lookup] at h
  | cons e es ih =>
    simp only [lookup] at h
    by_cases hk : e.1 = k
    · rw [if_pos hk] at h
      cases h
      simp only [putIn, if_pos hk, totalOf]
      omega
    · rw [if_neg hk] at h
      have rest := ih h
      simp only [putIn, if_neg hk, totalOf]
      omega

/-- only the node whose value changes counts for the difference -/
theorem total_put {f : α → Nat} {r : Roster α} {k : NodeId} {a : α} (h : r.get? k = some a) (b : α) :
    (r.put k b).total f + f a = r.total f + f b := totalOf_putIn b h

/-- the roster of a list of entries, later ones taking the place of earlier ones -/
def ofList (es : List (NodeId × α)) : Roster α := es.foldl (fun r e => r.put e.1 e.2) ∅

theorem get?_foldl_put {k : NodeId} {a : α} {es : List (NodeId × α)} {r : Roster α}
    (h : (es.foldl (fun r e => r.put e.1 e.2) r).get? k = some a) : (k, a) ∈ es ∨ r.get? k = some a := by
  induction es generalizing r with
  | nil => exact Or.inr h
  | cons e es ih =>
    rcases ih h with h | h
    · exact Or.inl (List.mem_cons_of_mem e h)
    · rw [get?_put] at h
      split at h
      · next hk =>
        cases h
        exact Or.inl (hk ▸ List.mem_cons_self)
      · exact Or.inr h

theorem mem_of_get?_ofList {k : NodeId} {a : α} {es : List (NodeId × α)} (h : (ofList es).get? k = some a) :
    (k, a) ∈ es := by
  rcases get?_foldl_put h with h | h
  · exact h
  · exact absurd h nofun

theorem entries_foldl_put {es : List (NodeId × α)} {r : Roster α} (nodup : (es.map Prod.fst).Nodup)
    (new : ∀ k ∈ es.map Prod.fst, k ∉ r) : (es.foldl (fun r e => r.put e.1 e.2) r).entries = r.entries ++ es := by
  induction es generalizing r with
  | nil => exact (List.append_nil _).symm
  | cons e es ih =>
    obtain ⟨fresh, nodup⟩ := List.nodup_cons.1 nodup
    have first : e.1 ∉ r := new e.1 List.mem_cons_self
    have rest : ∀ k ∈ es.map Prod.fst, k ∉ r.put e.1 e.2 := by
      intro k hk
      rw [mem_iff_mem_keys, keys_put, if_neg first, List.mem_append, List.mem_singleton, not_or]
      exact ⟨new k (List.mem_cons_of_mem e.1 hk), fun e => fresh (e ▸ hk)⟩
    have placed : (r.put e.1 e.2).entries = r.entries ++ [e] := putIn_of_not_mem first
    rw [List.foldl_cons, ih nodup rest, placed, List.append_assoc, List.singleton_append]

/-- entries of different nodes are all kept, in their order -/
theorem entries_ofList {es : List (NodeId × α)} (nodup : (es.map Prod.fst).Nodup) : (ofList es).entries = es :=
  entries_foldl_put nodup fun _ _ => List.not_mem_nil

/-! ## Removing -/

/-- take a node out -/
def erase (r : Roster α) (k : NodeId) : Roster α where
  entries := r.entries.filter fun e => e.1 ≠ k
  nodup := r.nodup.sublist (List.filter_sublist.map _)

theorem keys_erase (r : Roster α) (k : NodeId) : (r.erase k).keys = r.keys.filter (· ≠ k) := by
  simp [erase, keys, List.filter_map, Function.comp_def]

theorem lookup_filter (k j : NodeId) (es : List (NodeId × α)) :
    lookup j (es.filter fun e => e.1 ≠ k) = if j = k then none else lookup j es := by
  induction es with
  | nil => simp [lookup]
  | cons e es ih => grind [lookup]

theorem get?_erase (r : Roster α) (k j : NodeId) : (r.erase k).get? j = if j = k then none else r.get? j :=
  lookup_filter k j r.entries

end Roster

end FederatedAgreement
