import Mathlib.Data.String.Basic
import CasperNodeProxy.Lib.Members

/-!
# JSON trees

A tree is either a text, whose objects may repeat names, or a value, whose objects are maps. The
type `ν` of numbers and the order that the maps keep are parameters.

* `Json`, `Json.induct`: trees, and induction over them.
* `Ordered`: the trees that are values.
* `collapse`: the value of a text, in which the last of repeated members stays; `collapse_ordered`,
  `collapse_of_ordered`.
* `depth`: how deep a tree nests; `depth_collapse_le`.
* `follow`: the subtree at a path; `SameOff`: two trees are the same everywhere but at a path;
  `SameKeys`: the objects on a path have the same names in the same order.
* **`eq_of_sameOff`**: values that are the same off a path and at the path are equal, if the objects
  on the path keep the order of their names or have the same names in the same order.
-/

/-- A JSON tree over any numbers; an object has its members in order. -/
inductive Json (ν : Type) where
  | null
  | bool (b : Bool)
  | number (n : ν)
  | string (s : String)
  | array (items : List (Json ν))
  | object (members : List (String × Json ν))

namespace Json

variable {ν : Type}

/-- Induction over a tree, its items and its members. -/
theorem induct {motive : Json ν → Prop} (null : motive .null) (bool : ∀ b, motive (.bool b))
    (number : ∀ n, motive (.number n)) (string : ∀ s, motive (.string s))
    (array : ∀ items, (∀ j ∈ items, motive j) → motive (.array items))
    (object : ∀ members, (∀ p ∈ members, motive p.2) → motive (.object members)) (j : Json ν) :
    motive j :=
  @Json.rec ν motive (fun items => ∀ j ∈ items, motive j)
    (fun members => ∀ p ∈ members, motive p.2) (fun p => motive p.2) null bool number string array
    object nofun (fun _ _ hj ih => List.forall_mem_cons.mpr ⟨hj, ih⟩) nofun
    (fun _ _ hp ih => List.forall_mem_cons.mpr ⟨hp, ih⟩) (fun _ _ hj => hj) j

/-! ## Values -/

/-- Every object in the tree is a map. -/
inductive Ordered (o : Members.Order) : Json ν → Prop
  | null : Ordered o .null
  | bool (b : Bool) : Ordered o (.bool b)
  | number (n : ν) : Ordered o (.number n)
  | string (s : String) : Ordered o (.string s)
  | array {items : List (Json ν)} (h : ∀ j ∈ items, Ordered o j) : Ordered o (.array items)
  | object {members : List (String × Json ν)} (hm : Members.Ordered o members)
      (h : ∀ p ∈ members, Ordered o p.2) : Ordered o (.object members)

mutual

/-- The value of a text. -/
def collapse (o : Members.Order) : Json ν → Json ν
  | .null => .null
  | .bool b => .bool b
  | .number n => .number n
  | .string s => .string s
  | .array items => .array (collapseItems o items)
  | .object members => .object (Members.collect o (collapseMembers o members))

/-- The values of the items of an array. -/
def collapseItems (o : Members.Order) : List (Json ν) → List (Json ν)
  | [] => []
  | j :: items => j.collapse o :: collapseItems o items

/-- The values of the members of an object. -/
def collapseMembers (o : Members.Order) : List (String × Json ν) → List (String × Json ν)
  | [] => []
  | (k, j) :: members => (k, j.collapse o) :: collapseMembers o members

end

variable {o : Members.Order}

theorem collapseItems_eq (items : List (Json ν)) :
    collapseItems o items = items.map (collapse o) := by
  induction items with
  | nil => rfl
  | cons j items ih => rw [collapseItems, ih, List.map_cons]

theorem collapseMembers_eq (members : List (String × Json ν)) :
    collapseMembers o members = members.map fun p => (p.1, p.2.collapse o) := by
  induction members with
  | nil => rfl
  | cons p members ih => rw [collapseMembers, ih, List.map_cons]

theorem collapse_ordered (o : Members.Order) (j : Json ν) : (j.collapse o).Ordered o := by
  induction j using induct with
  | null => exact .null
  | bool b => exact .bool b
  | number n => exact .number n
  | string s => exact .string s
  | array items ih =>
    rw [collapse, collapseItems_eq]
    refine .array fun j hj => ?_
    obtain ⟨i, hi, rfl⟩ := List.mem_map.mp hj
    exact ih i hi
  | object members ih =>
    rw [collapse, collapseMembers_eq]
    refine .object (Members.ordered_collect o _) fun p hp => ?_
    obtain ⟨q, hq, rfl⟩ := List.mem_map.mp (Members.mem_collect hp)
    exact ih q hq

theorem collapse_of_ordered {j : Json ν} (h : j.Ordered o) : j.collapse o = j := by
  induction h with
  | null | bool | number | string => rfl
  | @array items h ih =>
    rw [collapse, collapseItems_eq, List.map_congr_left ih, List.map_id']
  | @object members hm h ih =>
    have hsame : members.map (fun p => (p.1, p.2.collapse o)) = members := by
      conv_rhs => rw [← List.map_id members]
      exact List.map_congr_left fun p hp => Prod.ext rfl (ih p hp)
    rw [collapse, collapseMembers_eq, hsame, Members.collect_of_ordered hm]

/-- A member of the value of a text is the last one with its name. -/
theorem lookup_collapseMembers (k : String) (members : List (String × Json ν)) :
    (Members.collect o (collapseMembers o members)).lookup k =
      (members.reverse.lookup k).map (collapse o) := by
  rw [Members.lookup_collect, collapseMembers_eq, ← List.map_reverse, Members.lookup_map]

theorem Ordered.members {m : List (String × Json ν)} (h : (Json.object m).Ordered o) :
    Members.Ordered o m := by
  cases h with
  | object hm _ => exact hm

theorem Ordered.lookup {m : List (String × Json ν)} (h : (Json.object m).Ordered o) {k : String}
    {j : Json ν} (hj : m.lookup k = some j) : j.Ordered o := by
  cases h with
  | object hm hall =>
    obtain ⟨l₁, l₂, rfl, -⟩ := List.lookup_eq_some_iff.mp hj
    exact hall (k, j) (by simp)

theorem Ordered.item {items : List (Json ν)} (h : (Json.array items).Ordered o) {i : ℕ}
    {j : Json ν} (hj : items[i]? = some j) : j.Ordered o := by
  cases h with
  | array hall => exact hall j (List.mem_of_getElem? hj)

theorem Ordered.insert {m : List (String × Json ν)} (h : (Json.object m).Ordered o) (k : String)
    {j : Json ν} (hj : j.Ordered o) : (Json.object (Members.insert o k j m)).Ordered o := by
  cases h with
  | object hm hall =>
    refine .object (hm.insert k j) fun p hp => ?_
    rcases Members.mem_insert hp with rfl | hp
    · exact hj
    · exact hall p hp

/-! ## Depth -/

mutual

/-- How many arrays and objects stand in each other. -/
def depth : Json ν → ℕ
  | .array items => depthItems items + 1
  | .object members => depthMembers members + 1
  | _ => 0

/-- How deep the items of an array nest. -/
def depthItems : List (Json ν) → ℕ
  | [] => 0
  | j :: items => max j.depth (depthItems items)

/-- How deep the members of an object nest. -/
def depthMembers : List (String × Json ν) → ℕ
  | [] => 0
  | (_, j) :: members => max j.depth (depthMembers members)

end

theorem depthItems_le {items : List (Json ν)} {n : ℕ} :
    depthItems items ≤ n ↔ ∀ j ∈ items, j.depth ≤ n := by
  induction items with
  | nil => simp [depthItems]
  | cons j items ih => simp [depthItems, ih]

theorem depthMembers_le {members : List (String × Json ν)} {n : ℕ} :
    depthMembers members ≤ n ↔ ∀ p ∈ members, p.2.depth ≤ n := by
  induction members with
  | nil => simp [depthMembers]
  | cons p members ih => simp only [depthMembers, max_le_iff, ih, List.forall_mem_cons]

theorem depth_lookup_le {m : List (String × Json ν)} {k : String} {j : Json ν}
    (h : m.lookup k = some j) : j.depth ≤ depthMembers m := by
  obtain ⟨l₁, l₂, rfl, -⟩ := List.lookup_eq_some_iff.mp h
  exact depthMembers_le.mp le_rfl (k, j) (by simp)

theorem depth_insert_le (k : String) (j : Json ν) (m : List (String × Json ν)) :
    depthMembers (Members.insert o k j m) ≤ max j.depth (depthMembers m) := by
  refine depthMembers_le.mpr fun p hp => ?_
  rcases Members.mem_insert hp with rfl | hp
  · exact le_max_left _ _
  · exact (depthMembers_le.mp le_rfl p hp).trans (le_max_right _ _)

theorem depth_collapse_le (o : Members.Order) (j : Json ν) : (j.collapse o).depth ≤ j.depth := by
  induction j using induct with
  | array items ih =>
    rw [collapse, collapseItems_eq, depth, depth]
    refine Nat.succ_le_succ (depthItems_le.mpr fun j hj => ?_)
    obtain ⟨i, hi, rfl⟩ := List.mem_map.mp hj
    exact (ih i hi).trans (depthItems_le.mp le_rfl i hi)
  | object members ih =>
    rw [collapse, collapseMembers_eq, depth, depth]
    refine Nat.succ_le_succ (depthMembers_le.mpr fun p hp => ?_)
    obtain ⟨q, hq, rfl⟩ := List.mem_map.mp (Members.mem_collect hp)
    exact (ih q hq).trans (depthMembers_le.mp le_rfl q hq)
  | _ => exact le_rfl

/-! ## Paths -/

/-- A step into an object or an array. -/
inductive Step
  | key (k : String)
  | index (i : ℕ)
  deriving DecidableEq, Repr

/-- The subtree at a path, if there is one. -/
def follow : Json ν → List Step → Option (Json ν)
  | j, [] => some j
  | .object m, .key k :: path => (m.lookup k).bind fun j => j.follow path
  | .array items, .index i :: path => (items[i]?).bind fun j => j.follow path
  | _, _ :: _ => none

@[simp] theorem follow_nil (j : Json ν) : j.follow [] = some j := by
  cases j <;> rfl

@[simp] theorem follow_key (m : List (String × Json ν)) (k : String) (path : List Step) :
    (object m).follow (.key k :: path) = (m.lookup k).bind fun j => j.follow path := rfl

@[simp] theorem follow_index (items : List (Json ν)) (i : ℕ) (path : List Step) :
    (array items).follow (.index i :: path) = (items[i]?).bind fun j => j.follow path := rfl

theorem follow_key_eq_some {v j : Json ν} {k : String} {path : List Step}
    (h : v.follow (.key k :: path) = some j) :
    ∃ m v', v = object m ∧ m.lookup k = some v' ∧ v'.follow path = some j := by
  cases v with
  | object m =>
    obtain ⟨v', hv', hj⟩ := Option.bind_eq_some_iff.mp h
    exact ⟨m, v', rfl, hv', hj⟩
  | _ => cases h

theorem follow_index_eq_some {v j : Json ν} {i : ℕ} {path : List Step}
    (h : v.follow (.index i :: path) = some j) :
    ∃ items v', v = array items ∧ items[i]? = some v' ∧ v'.follow path = some j := by
  cases v with
  | array items =>
    obtain ⟨v', hv', hj⟩ := Option.bind_eq_some_iff.mp h
    exact ⟨items, v', rfl, hv', hj⟩
  | _ => cases h

/-! ## The same everywhere else -/

/-- The trees have the same subtree at every path that neither leads to `path` nor goes on from
it. -/
def SameOff (path : List Step) (v w : Json ν) : Prop :=
  ∀ q, ¬ q <+: path → ¬ path <+: q → v.follow q = w.follow q

theorem SameOff.symm {path : List Step} {v w : Json ν} (h : SameOff path v w) :
    SameOff path w v :=
  fun q h₁ h₂ => (h q h₁ h₂).symm

theorem SameOff.trans {path : List Step} {u v w : Json ν} (h₁ : SameOff path u v)
    (h₂ : SameOff path v w) : SameOff path u w :=
  fun q hq hq' => (h₁ q hq hq').trans (h₂ q hq hq')

theorem SameOff.down {s : Step} {path : List Step} {v w v' w' : Json ν}
    (h : SameOff (s :: path) v w) (hv : ∀ q, v.follow (s :: q) = v'.follow q)
    (hw : ∀ q, w.follow (s :: q) = w'.follow q) : SameOff path v' w' := by
  intro q h₁ h₂
  rw [← hv, ← hw]
  exact h (s :: q) (fun hq => h₁ (List.cons_prefix_cons.mp hq).2)
    fun hq => h₂ (List.cons_prefix_cons.mp hq).2

theorem SameOff.other {s t : Step} {path : List Step} {v w : Json ν} (h : SameOff (s :: path) v w)
    (hne : t ≠ s) : v.follow [t] = w.follow [t] :=
  h [t] (fun hq => hne (List.cons_prefix_cons.mp hq).1)
    fun hq => hne (List.cons_prefix_cons.mp hq).1.symm

/-- The objects on the path have the same names in the same order. -/
def SameKeys : List Step → Json ν → Json ν → Prop
  | .key k :: path, .object m, .object n => m.map Prod.fst = n.map Prod.fst ∧
      ∀ v w, m.lookup k = some v → n.lookup k = some w → SameKeys path v w
  | .index i :: path, .array m, .array n =>
      ∀ v w, m[i]? = some v → n[i]? = some w → SameKeys path v w
  | _, _, _ => True

/-- **Values that are the same off a path and at the path are equal**, when the maps keep the order
of their names or those on the path have the same names in the same order. -/
theorem eq_of_sameOff {path : List Step} {v w j : Json ν} (hv : v.Ordered o) (hw : w.Ordered o)
    (hk : o = .byKey ∨ SameKeys path v w) (h : SameOff path v w) (hvj : v.follow path = some j)
    (hwj : w.follow path = some j) : v = w := by
  induction path generalizing v w with
  | nil =>
    rw [follow_nil] at hvj hwj
    exact Option.some.inj (hvj.trans hwj.symm)
  | cons s path ih =>
    cases s with
    | key k =>
      obtain ⟨m, v', rfl, hv', hvj⟩ := follow_key_eq_some hvj
      obtain ⟨n, w', rfl, hw', hwj⟩ := follow_key_eq_some hwj
      have hsame : v' = w' := by
        refine ih (hv.lookup hv') (hw.lookup hw') (hk.imp_right fun hk => hk.2 v' w' hv' hw')
          (h.down ?_ ?_) hvj hwj
        · intro q
          rw [follow_key, hv', Option.bind_some]
        · intro q
          rw [follow_key, hw', Option.bind_some]
      have hlookup : ∀ l, m.lookup l = n.lookup l := by
        intro l
        by_cases hl : l = k
        · rw [hl, hv', hw', hsame]
        · have hother := h.other (t := .key l) (fun he => hl (Step.key.inj he))
          simpa using hother
      congr 1
      rcases hk with ho | hk
      · exact (hv.members.sorted ho).ext (hw.members.sorted ho) hlookup
      · exact Members.ext_of_keys hv.members.nodup hk.1 hlookup
    | index i =>
      obtain ⟨m, v', rfl, hv', hvj⟩ := follow_index_eq_some hvj
      obtain ⟨n, w', rfl, hw', hwj⟩ := follow_index_eq_some hwj
      have hsame : v' = w' := by
        refine ih (hv.item hv') (hw.item hw') (hk.imp_right fun hk => hk v' w' hv' hw')
          (h.down ?_ ?_) hvj hwj
        · intro q
          rw [follow_index, hv', Option.bind_some]
        · intro q
          rw [follow_index, hw', Option.bind_some]
      congr 1
      apply List.ext_getElem?
      intro l
      by_cases hl : l = i
      · rw [hl, hv', hw', hsame]
      · have hother := h.other (t := .index l) (fun he => hl (Step.index.inj he))
        simpa using hother

theorem sameOff_insert (o : Members.Order) (m : List (String × Json ν)) (k : String)
    (j : Json ν) : SameOff [.key k] (object m) (object (Members.insert o k j m)) := by
  intro q h₁ h₂
  cases q with
  | nil => exact absurd List.nil_prefix h₁
  | cons s q =>
    cases s with
    | key l =>
      have hl : l ≠ k := by
        rintro rfl
        exact h₂ (List.cons_prefix_cons.mpr ⟨rfl, List.nil_prefix⟩)
      rw [follow_key, follow_key, Members.lookup_insert, if_neg hl]
    | index i => rfl

/-- What an insertion of a changed member changes. -/
theorem SameOff.insert {m : List (String × Json ν)} {k : String} {path : List Step} {v w : Json ν}
    (h : SameOff path v w) (hv : m.lookup k = some v) :
    SameOff (.key k :: path) (object m) (object (Members.insert o k w m)) := by
  intro q h₁ h₂
  by_cases hk : [.key k] <+: q
  · obtain ⟨q, rfl⟩ := hk
    rw [List.singleton_append] at h₁ h₂ ⊢
    rw [follow_key, follow_key, Members.lookup_insert_self, hv]
    exact h q (fun hq => h₁ (List.cons_prefix_cons.mpr ⟨rfl, hq⟩))
      fun hq => h₂ (List.cons_prefix_cons.mpr ⟨rfl, hq⟩)
  · refine sameOff_insert o m k w q (fun hq => h₁ (hq.trans ?_)) hk
    exact List.cons_prefix_cons.mpr ⟨rfl, List.nil_prefix⟩

end Json
