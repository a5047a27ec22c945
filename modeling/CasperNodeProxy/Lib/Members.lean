import Mathlib.Data.List.Basic
import Mathlib.Data.List.Induction
import Mathlib.Data.List.Nodup
import Mathlib.Order.Lattice
import Mathlib.Tactic.SplitIfs

/-!
# Maps as lists of members

A map is the list of its members, either in increasing order of their keys or in the order in which
the keys were inserted. `List.lookup` reads it.

* `Order`, `Ordered`, `insert`: the two kinds of maps, the invariant, and the insertion that keeps
  it (`Ordered.insert`).
* `lookup_insert`: what is found after an insertion; `insert_of_lookup`: an insertion of what is
  there.
* **`Sorted.ext`**: maps in the order of their keys with the same lookups are equal; `ext_of_keys`:
  so are maps with the same keys in the same order.
* `collect`, **`lookup_collect`**: of members with one key, the last one stays; `values`: the values
  of all of them.
-/

namespace Members

/-- Where a map keeps a new member: in the order of the keys, or behind the other members. -/
inductive Order
  | byKey
  | byInsertion
  deriving DecidableEq, Repr

variable {κ α : Type*} [LinearOrder κ]

/-- The keys strictly increase. -/
def Sorted (m : List (κ × α)) : Prop := m.Pairwise fun a b => a.1 < b.1

/-- The keys are distinct, and in order where the map keeps them in order. -/
structure Ordered (o : Order) (m : List (κ × α)) : Prop where
  nodup : (m.map Prod.fst).Nodup
  sorted : o = .byKey → Sorted m

/-- A value for the key `k`, in the place of the former one if there is one. -/
def insert (o : Order) (k : κ) (v : α) : List (κ × α) → List (κ × α)
  | [] => [(k, v)]
  | (l, w) :: m =>
    if k = l then (k, v) :: m
    else if o = .byKey ∧ k < l then (k, v) :: (l, w) :: m
    else (l, w) :: insert o k v m

variable {o : Order}

theorem Sorted.nodup {m : List (κ × α)} (h : Sorted m) : (m.map Prod.fst).Nodup :=
  List.pairwise_map.mpr (h.imp fun hlt => ne_of_lt hlt)

theorem Sorted.ordered {m : List (κ × α)} (h : Sorted m) : Ordered o m := ⟨h.nodup, fun _ => h⟩

theorem ordered_of_keys {m : List (κ × α)} (h : (m.map Prod.fst).Pairwise (· < ·)) :
    Ordered o m := Sorted.ordered (List.pairwise_map.mp h)

theorem Ordered.nil : Ordered o ([] : List (κ × α)) := ⟨List.nodup_nil, fun _ => .nil⟩

theorem Ordered.tail {q : κ × α} {m : List (κ × α)} (h : Ordered o (q :: m)) : Ordered o m :=
  ⟨(List.nodup_cons.mp h.nodup).2, fun ho => (List.pairwise_cons.mp (h.sorted ho)).2⟩

theorem mem_insert {k : κ} {v : α} {p : κ × α} {m : List (κ × α)} (h : p ∈ insert o k v m) :
    p = (k, v) ∨ p ∈ m := by
  induction m with
  | nil => exact .inl (List.mem_singleton.mp h)
  | cons q m ih =>
    simp only [insert] at h
    split_ifs at h
    · exact (List.mem_cons.mp h).imp_right (List.mem_cons_of_mem _)
    · exact List.mem_cons.mp h
    · rcases List.mem_cons.mp h with rfl | h
      · exact .inr List.mem_cons_self
      · exact (ih h).imp_right (List.mem_cons_of_mem _)

theorem mem_keys_insert {k l : κ} {v : α} {m : List (κ × α)}
    (h : l ∈ (insert o k v m).map Prod.fst) : l = k ∨ l ∈ m.map Prod.fst := by
  obtain ⟨p, hp, rfl⟩ := List.mem_map.mp h
  rcases mem_insert hp with rfl | hp
  · exact .inl rfl
  · exact .inr (List.mem_map_of_mem hp)

theorem nodup_insert {k : κ} {v : α} {m : List (κ × α)} (h : Ordered o m) :
    ((insert o k v m).map Prod.fst).Nodup := by
  induction m with
  | nil => exact List.nodup_singleton k
  | cons q m ih =>
    obtain ⟨hq, hm⟩ := List.nodup_cons.mp h.nodup
    simp only [insert]
    split_ifs with heq hlt
    · exact List.nodup_cons.mpr ⟨heq ▸ hq, hm⟩
    · refine List.nodup_cons.mpr ⟨fun hmem => ?_, h.nodup⟩
      rcases List.mem_cons.mp hmem with he | hmem
      · exact heq he
      · obtain ⟨p, hp, rfl⟩ := List.mem_map.mp hmem
        exact lt_asymm hlt.2 ((List.pairwise_cons.mp (h.sorted hlt.1)).1 p hp)
    · refine List.nodup_cons.mpr ⟨fun hmem => ?_, ih h.tail⟩
      rcases mem_keys_insert hmem with he | hmem
      · exact heq he.symm
      · exact hq hmem

theorem Sorted.insert (k : κ) (v : α) {m : List (κ × α)} (h : Sorted m) :
    Sorted (insert .byKey k v m) := by
  induction m with
  | nil => exact List.pairwise_singleton _ _
  | cons q m ih =>
    obtain ⟨hq, hm⟩ := List.pairwise_cons.mp h
    simp only [Members.insert, true_and]
    split_ifs with heq hlt
    · exact List.pairwise_cons.mpr ⟨fun p hp => heq ▸ hq p hp, hm⟩
    · refine List.pairwise_cons.mpr ⟨fun p hp => ?_, h⟩
      rcases List.mem_cons.mp hp with rfl | hp
      · exact hlt
      · exact lt_trans hlt (hq p hp)
    · refine List.pairwise_cons.mpr ⟨fun p hp => ?_, ih hm⟩
      rcases mem_insert hp with rfl | hp
      · exact lt_of_le_of_ne (not_lt.mp hlt) (Ne.symm heq)
      · exact hq p hp

theorem Ordered.insert (k : κ) (v : α) {m : List (κ × α)} (h : Ordered o m) :
    Ordered o (insert o k v m) := by
  refine ⟨nodup_insert h, ?_⟩
  rintro rfl
  exact (h.sorted rfl).insert k v

theorem lookup_cons (l : κ) (q : κ × α) (m : List (κ × α)) :
    (q :: m).lookup l = if l = q.1 then some q.2 else m.lookup l := by
  rw [List.lookup_cons]
  by_cases h : l = q.1
  · simp [h]
  · simp [h, beq_false_of_ne]

theorem lookup_eq_some_iff {k : κ} {v : α} {m : List (κ × α)} (h : (m.map Prod.fst).Nodup) :
    m.lookup k = some v ↔ (k, v) ∈ m := by
  induction m with
  | nil => simp
  | cons q m ih =>
    obtain ⟨l, w⟩ := q
    obtain ⟨hq, hm⟩ := List.nodup_cons.mp h
    rw [lookup_cons, List.mem_cons, Prod.mk.injEq]
    split_ifs with hk
    · obtain rfl : k = l := hk
      have hnot : (k, v) ∉ m := fun hmem => hq (List.mem_map.mpr ⟨(k, v), hmem, rfl⟩)
      simp [hnot, eq_comm]
    · rw [ih hm]
      simp [hk]

theorem lookup_map {β : Type*} (f : α → β) (k : κ) (m : List (κ × α)) :
    (m.map fun p => (p.1, f p.2)).lookup k = (m.lookup k).map f := by
  induction m with
  | nil => rfl
  | cons q m ih =>
    rw [List.map_cons, lookup_cons, lookup_cons, ih]
    split_ifs <;> rfl

/-- **What is found after an insertion.** -/
theorem lookup_insert (o : Order) (k l : κ) (v : α) (m : List (κ × α)) :
    (insert o k v m).lookup l = if l = k then some v else m.lookup l := by
  induction m with
  | nil => rw [insert, lookup_cons, List.lookup_nil]
  | cons q m ih =>
    by_cases heq : k = q.1
    · rw [insert, if_pos heq, lookup_cons, lookup_cons, ← heq]
      split_ifs <;> rfl
    by_cases hlt : o = .byKey ∧ k < q.1
    · rw [insert, if_neg heq, if_pos hlt, lookup_cons]
    · rw [insert, if_neg heq, if_neg hlt, lookup_cons, lookup_cons, ih]
      by_cases hl : l = k
      · rw [if_neg (hl ▸ heq), if_pos hl, if_pos hl]
      · rw [if_neg hl, if_neg hl]

theorem lookup_insert_self (o : Order) (k : κ) (v : α) (m : List (κ × α)) :
    (insert o k v m).lookup k = some v := by
  rw [lookup_insert, if_pos rfl]

/-- Where a member goes depends on the keys only. -/
theorem keys_insert_congr (o : Order) (k : κ) (v w : α) {m n : List (κ × α)}
    (h : m.map Prod.fst = n.map Prod.fst) :
    (insert o k v m).map Prod.fst = (insert o k w n).map Prod.fst := by
  induction m generalizing n with
  | nil =>
    obtain rfl := List.map_eq_nil_iff.mp h.symm
    rfl
  | cons q m ih =>
    obtain ⟨r, n, rfl, hr, hn⟩ := List.map_eq_cons_iff.mp h.symm
    simp only [insert, hr]
    split_ifs
    · simp [hn]
    · simp [hn]
    · simp [ih hn.symm]

theorem insert_of_lookup {k : κ} {v : α} {m : List (κ × α)} (hm : Ordered o m)
    (h : m.lookup k = some v) : insert o k v m = m := by
  induction m with
  | nil => cases h
  | cons q m ih =>
    obtain ⟨l, w⟩ := q
    rw [lookup_cons] at h
    split_ifs at h with heq
    · obtain rfl : w = v := Option.some.inj h
      rw [insert, if_pos heq, heq]
    · have hmem : (k, v) ∈ m := (lookup_eq_some_iff hm.tail.nodup).mp h
      have hlt : ¬ (o = .byKey ∧ k < l) := fun hlt =>
        lt_asymm hlt.2 ((List.pairwise_cons.mp (hm.sorted hlt.1)).1 (k, v) hmem)
      rw [insert, if_neg heq, if_neg hlt, ih hm.tail h]

/-! ## Equality -/

theorem lookup_eq_none {k : κ} {m : List (κ × α)} (h : ∀ p ∈ m, k < p.1) : m.lookup k = none := by
  induction m with
  | nil => rfl
  | cons q m ih =>
    rw [lookup_cons, if_neg (ne_of_lt (h q List.mem_cons_self))]
    exact ih fun p hp => h p (List.mem_cons_of_mem _ hp)

theorem head_le {q₁ q₂ : κ × α} {m₁ m₂ : List (κ × α)} (h₂ : Sorted (q₂ :: m₂))
    (h : (q₂ :: m₂).lookup q₁.1 = (q₁ :: m₁).lookup q₁.1) : q₂.1 ≤ q₁.1 := by
  by_contra hlt
  have hnone : (q₂ :: m₂).lookup q₁.1 = none := by
    refine lookup_eq_none fun p hp => ?_
    rcases List.mem_cons.mp hp with rfl | hp
    · exact not_le.mp hlt
    · exact lt_trans (not_le.mp hlt) ((List.pairwise_cons.mp h₂).1 p hp)
  rw [hnone, lookup_cons, if_pos rfl] at h
  cases h

/-- **Extensionality**, for maps in the order of their keys. -/
theorem Sorted.ext {m₁ m₂ : List (κ × α)} (h₁ : Sorted m₁) (h₂ : Sorted m₂)
    (h : ∀ k, m₁.lookup k = m₂.lookup k) : m₁ = m₂ := by
  induction m₁ generalizing m₂ with
  | nil =>
    cases m₂ with
    | nil => rfl
    | cons q₂ m₂ =>
      have hk := h q₂.1
      rw [lookup_cons, if_pos rfl] at hk
      cases hk
  | cons q₁ m₁ ih =>
    cases m₂ with
    | nil =>
      have hk := h q₁.1
      rw [lookup_cons, if_pos rfl] at hk
      cases hk
    | cons q₂ m₂ =>
      have hkey : q₁.1 = q₂.1 := le_antisymm (head_le h₁ (h q₂.1)) (head_le h₂ (h q₁.1).symm)
      have hval : q₁.2 = q₂.2 := by
        have hk := h q₁.1
        rw [lookup_cons, lookup_cons, if_pos rfl, if_pos hkey] at hk
        exact Option.some.inj hk
      obtain rfl : q₁ = q₂ := Prod.ext hkey hval
      obtain ⟨hlt₁, hs₁⟩ := List.pairwise_cons.mp h₁
      obtain ⟨hlt₂, hs₂⟩ := List.pairwise_cons.mp h₂
      refine congrArg (q₁ :: ·) (ih hs₁ hs₂ fun k => ?_)
      by_cases hk : k = q₁.1
      · rw [hk, lookup_eq_none hlt₁, lookup_eq_none hlt₂]
      · have := h k
        rwa [lookup_cons, lookup_cons, if_neg hk, if_neg hk] at this

/-- Extensionality, for maps with the same keys in the same order. -/
theorem ext_of_keys {m₁ m₂ : List (κ × α)} (hn : (m₁.map Prod.fst).Nodup)
    (hkeys : m₁.map Prod.fst = m₂.map Prod.fst) (h : ∀ k, m₁.lookup k = m₂.lookup k) :
    m₁ = m₂ := by
  induction m₁ generalizing m₂ with
  | nil => exact (List.map_eq_nil_iff.mp hkeys.symm).symm
  | cons q₁ m₁ ih =>
    obtain ⟨q₂, m₂, rfl, hq, hm⟩ := List.map_eq_cons_iff.mp hkeys.symm
    obtain ⟨hnot, hn⟩ := List.nodup_cons.mp hn
    have hval : q₁.2 = q₂.2 := by
      have hk := h q₁.1
      rw [lookup_cons, lookup_cons, if_pos rfl, if_pos hq.symm] at hk
      exact Option.some.inj hk
    obtain rfl : q₁ = q₂ := Prod.ext hq.symm hval
    have hnone : ∀ m : List (κ × α), q₁.1 ∉ m.map Prod.fst → m.lookup q₁.1 = none := by
      intro m hm
      rw [List.lookup_eq_none_iff]
      intro p hp
      have hne : q₁.1 ≠ p.1 := fun he => hm (he ▸ List.mem_map_of_mem hp)
      simpa using hne
    refine congrArg (q₁ :: ·) (ih hn hm.symm fun k => ?_)
    by_cases hk : k = q₁.1
    · rw [hk, hnone m₁ hnot, hnone m₂ (hm ▸ hnot)]
    · have := h k
      rwa [lookup_cons, lookup_cons, if_neg hk, if_neg hk] at this

/-! ## Repeated keys -/

/-- The map of a list of members; a later member replaces an earlier one with the same key. -/
def collect (o : Order) (l : List (κ × α)) : List (κ × α) :=
  l.foldl (fun m p => insert o p.1 p.2 m) []

theorem collect_append (o : Order) (l : List (κ × α)) (p : κ × α) :
    collect o (l ++ [p]) = insert o p.1 p.2 (collect o l) := by
  rw [collect, List.foldl_append]
  rfl

theorem ordered_collect (o : Order) (l : List (κ × α)) : Ordered o (collect o l) := by
  induction l using List.reverseRecOn with
  | nil => exact .nil
  | append_singleton l p ih =>
    rw [collect_append]
    exact ih.insert p.1 p.2

/-- **The last member with a key stays.** -/
theorem lookup_collect (o : Order) (k : κ) (l : List (κ × α)) :
    (collect o l).lookup k = l.reverse.lookup k := by
  induction l using List.reverseRecOn with
  | nil => rfl
  | append_singleton l p ih =>
    rw [List.reverse_append, List.reverse_singleton, List.singleton_append, lookup_cons, ← ih,
      collect_append]
    exact lookup_insert o p.1 k p.2 _

/-- The values of all members with a key, in order. -/
def values (k : κ) (l : List (κ × α)) : List α :=
  l.filterMap fun p => if p.1 = k then some p.2 else none

theorem values_append (k : κ) (l₁ l₂ : List (κ × α)) :
    values k (l₁ ++ l₂) = values k l₁ ++ values k l₂ := List.filterMap_append

theorem lookup_reverse (k : κ) (l : List (κ × α)) : l.reverse.lookup k = (values k l).getLast? := by
  induction l using List.reverseRecOn with
  | nil => rfl
  | append_singleton l p ih =>
    rw [List.reverse_append, List.reverse_singleton, List.singleton_append, lookup_cons, ih,
      values_append]
    by_cases h : k = p.1
    · simp [h, values]
    · simp [h, Ne.symm h, values]

theorem mem_collect {p : κ × α} {l : List (κ × α)} (h : p ∈ collect o l) : p ∈ l := by
  induction l using List.reverseRecOn with
  | nil => exact h
  | append_singleton l q ih =>
    rw [collect_append] at h
    rcases mem_insert h with rfl | h
    · exact List.mem_append_right _ (List.mem_singleton_self _)
    · exact List.mem_append_left _ (ih h)

/-- A new key goes to the end, if it is the largest one or the keys stand as they were inserted. -/
theorem insert_last {k : κ} {v : α} {m : List (κ × α)}
    (h : ∀ p ∈ m, p.1 ≠ k ∧ (o = .byKey → p.1 < k)) : insert o k v m = m ++ [(k, v)] := by
  induction m with
  | nil => rfl
  | cons q m ih =>
    obtain ⟨hne, hlt⟩ := h q List.mem_cons_self
    rw [insert, if_neg hne.symm, if_neg fun hk => lt_asymm hk.2 (hlt hk.1),
      ih fun p hp => h p (List.mem_cons_of_mem _ hp)]
    rfl

theorem collect_of_ordered {m : List (κ × α)} (h : Ordered o m) : collect o m = m := by
  induction m using List.reverseRecOn with
  | nil => rfl
  | append_singleton m p ih =>
    have hm : Ordered o m :=
      ⟨(h.nodup.sublist ((List.sublist_append_left m [p]).map _)),
        fun ho => (List.pairwise_append.mp (h.sorted ho)).1⟩
    rw [collect_append, ih hm, insert_last fun q hq => ⟨fun he => ?_, fun ho => ?_⟩]
    · have hn := h.nodup
      rw [List.map_append, List.nodup_append] at hn
      exact hn.2.2 q.1 (List.mem_map_of_mem hq) p.1 (by simp) he
    · exact (List.pairwise_append.mp (h.sorted ho)).2.2 q hq p (List.mem_singleton_self p)

end Members
