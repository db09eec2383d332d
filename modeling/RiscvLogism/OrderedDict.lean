import Mathlib.Data.List.Induction
import Mathlib.Data.List.Sort
import Mathlib.Data.Nat.Notation

/-!
# Insertion-ordered dictionaries

A dictionary whose entries stand in the order in which their keys were first
assigned.  This file is independent of any particular program.  It provides
the dictionaries which a loop builds from a list, by assigning one value per
key or by collecting all values of a key, and describes their keys and values
by the list alone.
-/

/-! ## First occurrences -/

namespace FirstOccurrences

variable {α β : Type*} [DecidableEq α] [DecidableEq β]

theorem eraseDups_append_singleton (l : List α) (x : α) :
    (l ++ [x]).eraseDups =
      if x ∈ l then l.eraseDups else l.eraseDups ++ [x] := by
  rw [List.eraseDups_append]
  by_cases hmem : x ∈ l
  · simp [List.removeAll, hmem]
  · simp [List.removeAll, hmem, List.eraseDups_cons]

theorem eraseDups_sublist (l : List α) : l.eraseDups.Sublist l := by
  induction l using List.reverseRecOn with
  | nil => exact List.Sublist.refl _
  | append_singleton l x ih =>
      rw [eraseDups_append_singleton]
      split_ifs with hmem
      · exact ih.trans (List.sublist_append_left l [x])
      · exact ih.append_right [x]

theorem eraseDups_nodup (l : List α) : l.eraseDups.Nodup := by
  induction l using List.reverseRecOn with
  | nil => exact List.nodup_nil
  | append_singleton l x ih =>
      rw [eraseDups_append_singleton]
      split_ifs with hmem
      · exact ih
      · rw [← List.concat_eq_append]
        exact ih.concat fun hx => hmem (List.mem_eraseDups.mp hx)

theorem eraseDups_map {f : α → β} (hf : Function.Injective f)
    (l : List α) : (l.map f).eraseDups = l.eraseDups.map f := by
  induction l using List.reverseRecOn with
  | nil => rfl
  | append_singleton l x ih =>
      rw [List.map_append, List.map_singleton, eraseDups_append_singleton,
        eraseDups_append_singleton, ih]
      have hmem : f x ∈ l.map f ↔ x ∈ l := List.mem_map_of_injective hf
      by_cases hx : x ∈ l
      · rw [if_pos hx, if_pos (hmem.mpr hx)]
      · rw [if_neg hx, if_neg (mt hmem.mp hx), List.map_append,
          List.map_singleton]

theorem eraseDups_pairwise_lt {γ : Type*} [LinearOrder γ] {l : List γ}
    (hsorted : l.Pairwise (· ≤ ·)) : l.eraseDups.Pairwise (· < ·) := by
  have hle := hsorted.sublist (eraseDups_sublist l)
  exact (hle.and (eraseDups_nodup l)).imp fun hpair =>
    lt_of_le_of_ne hpair.1 hpair.2

end FirstOccurrences

/-! ## Sorting by a key -/

namespace Sorting

variable {α γ : Type*} [LinearOrder γ] (key : α → γ)

/-- The stable sort: elements with equal keys keep their order. -/
def sortedBy (l : List α) : List α :=
  l.insertionSort fun x y => key x ≤ key y

theorem sortedBy_perm (l : List α) : (sortedBy key l).Perm l :=
  List.perm_insertionSort _ l

theorem map_sortedBy_pairwise (l : List α) :
    ((sortedBy key l).map key).Pairwise (· ≤ ·) := by
  have htotal : Std.Total fun x y : α => key x ≤ key y :=
    ⟨fun x y => le_total (key x) (key y)⟩
  have htrans : IsTrans α fun x y => key x ≤ key y :=
    ⟨fun _ _ _ hxy hyz => le_trans hxy hyz⟩
  rw [List.pairwise_map]
  exact List.pairwise_insertionSort _ l

theorem sortedBy_eq_self {l : List α}
    (hsorted : (l.map key).Pairwise (· ≤ ·)) : sortedBy key l = l :=
  (List.pairwise_map.mp hsorted).insertionSort_eq

theorem filter_orderedInsert (k : γ) (x : α) (l : List α) :
    (l.orderedInsert (fun x y => key x ≤ key y) x).filter
        (fun y => key y = k) =
      (x :: l).filter fun y => key y = k := by
  induction l with
  | nil => rfl
  | cons y rest ih =>
      rw [List.orderedInsert_cons]
      split_ifs with hle
      · rfl
      · by_cases hy : key y = k
        · have hx : key x ≠ k := by
            rintro rfl
            exact hle hy.ge
          simp [hx, hy, ih]
        · by_cases hx : key x = k <;> simp [hx, hy, ih]

/-- Stability, for one key at a time. -/
theorem filter_sortedBy (k : γ) (l : List α) :
    (sortedBy key l).filter (fun x => key x = k) =
      l.filter fun x => key x = k := by
  induction l with
  | nil => rfl
  | cons x rest ih =>
      unfold sortedBy at ih ⊢
      rw [List.insertionSort_cons, filter_orderedInsert, List.filter_cons,
        List.filter_cons, ih]

end Sorting

/-! ## Partitions by a key -/

namespace Partition

variable {α K : Type*} [DecidableEq K] (key : α → K)

/-- Grouping by a key only rearranges a list. -/
theorem flatMap_filter_perm {keys : List K} (hnodup : keys.Nodup)
    {l : List α} (hkeys : ∀ x ∈ l, key x ∈ keys) :
    (keys.flatMap fun k => l.filter fun x => key x = k).Perm l := by
  induction keys generalizing l with
  | nil =>
      have hnil : l = [] := by
        apply List.eq_nil_iff_forall_not_mem.mpr
        intro x hx
        exact List.not_mem_nil (hkeys x hx)
      subst hnil
      exact List.Perm.refl _
  | cons k rest ih =>
      obtain ⟨hfresh, hrest⟩ := List.nodup_cons.mp hnodup
      have hothers :
          (rest.flatMap fun k' => l.filter fun x => key x = k') =
            rest.flatMap fun k' =>
              (l.filter fun x => ¬ key x = k).filter
                fun x => key x = k' := by
        apply List.flatMap_congr
        intro k' hk'
        have hne : k' ≠ k := by
          intro hsame
          exact hfresh (hsame ▸ hk')
        rw [List.filter_filter]
        apply List.filter_congr
        intro x _
        by_cases hx : key x = k'
        · simp [hx, hne]
        · simp [hx]
      have hkeys' :
          ∀ x ∈ l.filter (fun x => ¬ key x = k), key x ∈ rest := by
        intro x hx
        obtain ⟨hmem, hother⟩ := List.mem_filter.mp hx
        have hcons := List.mem_cons.mp (hkeys x hmem)
        exact hcons.resolve_left (of_decide_eq_true hother)
      have hsplit :
          ((l.filter fun x => key x = k) ++
            l.filter fun x => ¬ key x = k).Perm l := by
        simpa only [decide_not] using
          List.filter_append_perm (fun x => decide (key x = k)) l
      rw [List.flatMap_cons, hothers]
      exact ((ih hrest hkeys').append_left _).trans hsplit

end Partition

/-! ## Dictionaries -/

@[ext] structure OrderedDict (K V : Type*) where
  entries : List (K × V)
  nodup : (entries.map Prod.fst).Nodup

namespace OrderedDict

variable {K V : Type*}

def keys (dict : OrderedDict K V) : List K := dict.entries.map Prod.fst

def empty : OrderedDict K V where
  entries := []
  nodup := List.nodup_nil

variable [DecidableEq K]

def get? (dict : OrderedDict K V) (key : K) : Option V :=
  dict.entries.lookup key

/-- Replaces the value at the key, or adds an entry behind the others. -/
def assign (key : K) (value : V) : List (K × V) → List (K × V)
  | [] => [(key, value)]
  | entry :: rest =>
      if entry.1 = key then (key, value) :: rest
      else entry :: assign key value rest

theorem map_fst_assign (key : K) (value : V) (entries : List (K × V)) :
    (assign key value entries).map Prod.fst =
      if key ∈ entries.map Prod.fst then entries.map Prod.fst
      else entries.map Prod.fst ++ [key] := by
  induction entries with
  | nil => rfl
  | cons entry rest ih =>
      unfold assign
      by_cases hkey : entry.1 = key
      · subst hkey
        simp
      · have hkey' : key ≠ entry.1 := Ne.symm hkey
        rw [if_neg hkey, List.map_cons, ih]
        by_cases hmem : key ∈ rest.map Prod.fst
        · simp [hmem]
        · simp [hmem, hkey']

theorem lookup_cons_eq (entry : K × V) (rest : List (K × V)) (k : K) :
    (entry :: rest).lookup k =
      if k = entry.1 then some entry.2 else rest.lookup k := by
  rw [List.lookup_cons]
  by_cases hk : k = entry.1
  · simp [hk]
  · have hbeq : (k == entry.1) = false := beq_eq_false_iff_ne.mpr hk
    rw [hbeq, if_neg hk]

theorem lookup_of_mem {entries : List (K × V)}
    (hkeys : (entries.map Prod.fst).Nodup) {key : K} {value : V}
    (hmem : (key, value) ∈ entries) : entries.lookup key = some value := by
  induction entries with
  | nil => exact absurd hmem List.not_mem_nil
  | cons entry rest ih =>
      obtain ⟨hfresh, hrest⟩ := List.nodup_cons.mp hkeys
      rw [lookup_cons_eq]
      rcases List.mem_cons.mp hmem with rfl | hlater
      · rw [if_pos rfl]
      · have hne : key ≠ entry.1 := by
          rintro rfl
          exact hfresh (List.mem_map.mpr ⟨_, hlater, rfl⟩)
        rw [if_neg hne, ih hrest hlater]

theorem lookup_assign (key : K) (value : V) (entries : List (K × V))
    (k : K) :
    (assign key value entries).lookup k =
      if k = key then some value else entries.lookup k := by
  induction entries with
  | nil => exact lookup_cons_eq (key, value) [] k
  | cons entry rest ih =>
      unfold assign
      by_cases hkey : entry.1 = key
      · rw [if_pos hkey, lookup_cons_eq, lookup_cons_eq, ← hkey]
        split_ifs <;> rfl
      · rw [if_neg hkey, lookup_cons_eq, lookup_cons_eq, ih]
        by_cases hk : k = entry.1
        · have hne : k ≠ key := hk ▸ hkey
          rw [if_pos hk, if_neg hne, if_pos hk]
        · rw [if_neg hk, if_neg hk]

def set (dict : OrderedDict K V) (key : K) (value : V) :
    OrderedDict K V where
  entries := assign key value dict.entries
  nodup := by
    rw [map_fst_assign]
    by_cases hmem : key ∈ dict.entries.map Prod.fst
    · rw [if_pos hmem]
      exact dict.nodup
    · rw [if_neg hmem, ← List.concat_eq_append]
      exact dict.nodup.concat hmem

/-- Assignment through a default: a missing key counts as the empty list. -/
def append (dict : OrderedDict K (List V)) (key : K) (value : V) :
    OrderedDict K (List V) :=
  dict.set key ((dict.get? key).getD [] ++ [value])

section Entries

variable (dict : OrderedDict K V)

theorem keys_set (key : K) (value : V) :
    (dict.set key value).keys =
      if key ∈ dict.keys then dict.keys else dict.keys ++ [key] :=
  map_fst_assign key value dict.entries

theorem get?_set (key : K) (value : V) (k : K) :
    (dict.set key value).get? k =
      if k = key then some value else dict.get? k :=
  lookup_assign key value dict.entries k

theorem get?_eq_find? (key : K) :
    dict.get? key =
      (dict.entries.find? fun entry => entry.1 = key).map Prod.snd := by
  unfold get?
  induction dict.entries with
  | nil => rfl
  | cons entry rest ih =>
      rw [lookup_cons_eq, ih]
      by_cases hkey : entry.1 = key
      · simp [hkey]
      · simp [hkey, Ne.symm hkey]

theorem mem_entries_of_get? {key : K} {value : V}
    (hget : dict.get? key = some value) : (key, value) ∈ dict.entries := by
  obtain ⟨before, after, hentries, _⟩ := List.lookup_eq_some_iff.mp hget
  rw [hentries]
  exact List.mem_append_right _ (List.mem_cons_self ..)

theorem get?_eq_some_iff {key : K} {value : V} :
    dict.get? key = some value ↔ (key, value) ∈ dict.entries :=
  ⟨dict.mem_entries_of_get?, lookup_of_mem dict.nodup⟩

end Entries

/-! ## Loops which build a dictionary -/

section Loops

variable {α : Type*} (key : α → K) (value : α → V)

theorem keys_foldl_set (l : List α) :
    (l.foldl (fun dict x => dict.set (key x) (value x)) empty).keys =
      (l.map key).eraseDups := by
  induction l using List.reverseRecOn with
  | nil => rfl
  | append_singleton l x ih =>
      rw [List.foldl_append, List.foldl_cons, List.foldl_nil, keys_set, ih,
        List.map_append, List.map_singleton,
        FirstOccurrences.eraseDups_append_singleton]
      simp only [List.mem_eraseDups]

/-- The last assignment to a key wins. -/
theorem get?_foldl_set (l : List α) (k : K) :
    (l.foldl (fun dict x => dict.set (key x) (value x)) empty).get? k =
      (l.filter fun x => key x = k).getLast?.map value := by
  induction l using List.reverseRecOn with
  | nil => rfl
  | append_singleton l x ih =>
      rw [List.foldl_append, List.foldl_cons, List.foldl_nil, get?_set, ih,
        List.filter_append]
      by_cases hk : k = key x
      · subst hk
        simp
      · have hk' : key x ≠ k := Ne.symm hk
        simp [hk, hk']

theorem keys_foldl_append (l : List α) :
    (l.foldl (fun dict x => dict.append (key x) (value x)) empty).keys =
      (l.map key).eraseDups := by
  induction l using List.reverseRecOn with
  | nil => rfl
  | append_singleton l x ih =>
      rw [List.foldl_append, List.foldl_cons, List.foldl_nil, append,
        keys_set, ih, List.map_append, List.map_singleton,
        FirstOccurrences.eraseDups_append_singleton]
      simp only [List.mem_eraseDups]

/-- A group holds the values of its key in the order of the list. -/
theorem getD_foldl_append (l : List α) (k : K) :
    ((l.foldl (fun dict x => dict.append (key x) (value x))
      empty).get? k).getD [] =
      (l.filter fun x => key x = k).map value := by
  induction l using List.reverseRecOn with
  | nil => rfl
  | append_singleton l x ih =>
      rw [List.foldl_append, List.foldl_cons, List.foldl_nil, append,
        get?_set, List.filter_append, List.map_append, ← ih]
      by_cases hk : k = key x
      · subst hk
        simp
      · have hk' : key x ≠ k := Ne.symm hk
        simp [hk, hk']

end Loops

end OrderedDict
