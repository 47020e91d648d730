import Mathlib.Algebra.BigOperators.Group.List.Basic
import Mathlib.Data.List.Dedup
import Mathlib.Data.List.Sort

/-! # Groups of an ordered list

The labels of a list, each once and in the order of their ranks. A list that is ordered by its
labels is its groups, one after the other (`flatMap_filter`), so a group of a coarser label is
the groups of its finer ones put together (`filter_coarser`), and what is aggregated of the
whole can be aggregated from what was aggregated of the parts.
-/

namespace Grouping

variable {α κ ν : Type} [DecidableEq κ] {rank : κ → Nat}

/-! ## Labels -/

/-- The labels, each once, in the order of their ranks. -/
def labels (rank : κ → Nat) (keys : List κ) : List κ :=
  keys.dedup.insertionSort fun first second => rank first ≤ rank second

@[simp] theorem mem_labels {keys : List κ} {key : κ} : key ∈ labels rank keys ↔ key ∈ keys := by
  rw [labels, List.mem_insertionSort, List.mem_dedup]

theorem length_labels_le (keys : List κ) : (labels rank keys).length ≤ keys.length := by
  rw [labels, List.length_insertionSort]
  exact (List.dedup_sublist keys).length_le

/-- Labels ascend strictly. -/
theorem pairwise_labels (injective : Function.Injective rank) (keys : List κ) :
    (labels rank keys).Pairwise fun first second => rank first < rank second := by
  have trans : IsTrans κ fun first second => rank first ≤ rank second := ⟨fun _ _ _ => le_trans⟩
  have sorted : (labels rank keys).Pairwise fun first second => rank first ≤ rank second := by
    have total : Std.Total fun first second : κ => rank first ≤ rank second := ⟨fun _ _ => le_total _ _⟩
    exact List.pairwise_insertionSort _ _
  have distinct : (labels rank keys).Nodup :=
    (List.perm_insertionSort _ _).nodup_iff.mpr (List.nodup_dedup keys)
  refine (sorted.and distinct).imp fun both => lt_of_le_of_ne both.1 fun same => ?_
  exact both.2 (injective same)

/-- Labels are known by what they are of. -/
theorem labels_congr (injective : Function.Injective rank) {first second : List κ}
    (same : ∀ key, key ∈ first ↔ key ∈ second) : labels rank first = labels rank second := by
  refine List.Perm.eq_of_pairwise (fun a b _ _ before after => ?_) (pairwise_labels injective _)
    (pairwise_labels injective _) ?_
  · exact absurd before (lt_asymm after)
  · refine (List.perm_ext_iff_of_nodup ?_ ?_).mpr fun key => by simp [same]
    · exact (pairwise_labels injective _).imp fun below same => absurd (same ▸ below) (lt_irrefl _)
    · exact (pairwise_labels injective _).imp fun below same => absurd (same ▸ below) (lt_irrefl _)

/-! ## Groups -/

section Groups

variable {label : α → κ}

/-- The items of the first label stand before the others. -/
theorem eq_filter_append (injective : Function.Injective rank) {items : List α} {first : κ}
    (ordered : items.Pairwise fun a b => rank (label a) ≤ rank (label b))
    (least : ∀ item ∈ items, rank first ≤ rank (label item)) :
    items = items.filter (fun item => label item = first) ++
      items.filter (fun item => label item ≠ first) := by
  induction items with
  | nil => rfl
  | cons item rest ih =>
      obtain ⟨before, ordered⟩ := List.pairwise_cons.mp ordered
      have onward := ih ordered fun other member => least other (List.mem_cons_of_mem item member)
      by_cases own : label item = first
      · simpa [List.filter_cons, own] using onward
      · have none : ∀ other ∈ rest, label other ≠ first := by
          intro other member same
          refine own (injective (le_antisymm ?_ (least item List.mem_cons_self)))
          exact same ▸ before other member
        have empty : rest.filter (fun item => label item = first) = [] :=
          List.filter_eq_nil_iff.mpr fun other member => by simpa using none other member
        have whole : rest.filter (fun item => label item ≠ first) = rest :=
          List.filter_eq_self.mpr fun other member => by simpa using none other member
        rw [List.filter_cons, if_neg (by simpa using own), empty, List.nil_append,
          List.filter_cons, if_pos (by simpa using own), whole]

/-- **An ordered list is its groups, one after the other.** -/
theorem flatMap_filter (injective : Function.Injective rank) {items : List α} {groups : List κ}
    (ordered : items.Pairwise fun a b => rank (label a) ≤ rank (label b))
    (ascending : groups.Pairwise fun first second => rank first < rank second)
    (covered : ∀ item ∈ items, label item ∈ groups) :
    items = groups.flatMap fun group => items.filter fun item => label item = group := by
  induction groups generalizing items with
  | nil =>
      cases items with
      | nil => rfl
      | cons item rest => exact absurd (covered item List.mem_cons_self) List.not_mem_nil
  | cons group groups ih =>
      obtain ⟨before, ascending⟩ := List.pairwise_cons.mp ascending
      have least : ∀ item ∈ items, rank group ≤ rank (label item) := by
        intro item member
        rcases List.mem_cons.mp (covered item member) with same | later
        · exact same ▸ le_rfl
        · exact (before _ later).le
      have onward := @ih (items.filter fun item => label item ≠ group)
        (ordered.sublist List.filter_sublist) ascending ?_
      · have others : ∀ later ∈ groups,
            ((items.filter fun item => label item ≠ group).filter fun item => label item = later) =
              items.filter fun item => label item = later := by
          intro later member
          rw [List.filter_filter]
          refine List.filter_congr fun item _ => ?_
          by_cases own : label item = later
          · have other : label item ≠ group := by
              rintro same
              exact lt_irrefl _ (own ▸ same ▸ before later member)
            simp [own, own ▸ other]
          · simp [own]
        rw [List.flatMap_cons, ← List.flatMap_congr others, ← onward]
        exact eq_filter_append injective ordered least
      · intro item member
        obtain ⟨there, other⟩ := List.mem_filter.mp member
        exact (List.mem_cons.mp (covered item there)).resolve_left (by simpa using other)

/-- **A coarser group is its finer ones, one after the other.** -/
theorem filter_coarser {γ : Type} [DecidableEq γ] (injective : Function.Injective rank)
    {items : List α} (up : κ → γ) (coarse : γ)
    (ordered : items.Pairwise fun a b => rank (label a) ≤ rank (label b)) :
    (items.filter fun item => up (label item) = coarse) =
      ((labels rank (items.map label)).filter fun group => up group = coarse).flatMap
        fun group => items.filter fun item => label item = group := by
  have split := flatMap_filter injective
    (ordered.sublist (List.filter_sublist (p := fun item => up (label item) = coarse)))
    ((pairwise_labels injective (items.map label)).sublist
      (List.filter_sublist (p := fun group => up group = coarse))) ?_
  · refine split.trans (List.flatMap_congr fun group member => ?_)
    rw [List.filter_filter]
    refine List.filter_congr fun item _ => ?_
    by_cases own : label item = group
    · have belongs := (List.mem_filter.mp member).2
      simpa [own] using belongs
    · simp [own]
  · intro item member
    obtain ⟨there, belongs⟩ := List.mem_filter.mp member
    exact List.mem_filter.mpr ⟨mem_labels.mpr (List.mem_map_of_mem there), belongs⟩

end Groups

/-! ## Aggregates -/

section Aggregates

variable {lists : List (List ν)} (nonempty : ∀ list ∈ lists, list ≠ []) (default : ν)
include nonempty

/-- The first of all is the first of the first. -/
theorem head_flatten : lists.flatten.head?.getD default =
    (lists.map fun list => list.head?.getD default).head?.getD default := by
  cases lists with
  | nil => rfl
  | cons list rest =>
      cases list with
      | nil => exact absurd rfl (nonempty [] List.mem_cons_self)
      | cons first others => rfl

/-- The last of all is the last of the last. -/
theorem getLast_flatten : lists.flatten.getLast?.getD default =
    (lists.map fun list => list.getLast?.getD default).getLast?.getD default := by
  rcases List.eq_nil_or_concat lists with rfl | ⟨before, last, rfl⟩
  · rfl
  · have ends : last.getLast? = some (last.getLast (nonempty last (by simp))) :=
      List.getLast?_eq_some_getLast _
    simp [ends]

/-- The best of all is the best of the best. -/
theorem best_flatten {best : List ν → Option ν} {better : ν → ν → Prop}
    (spec : ∀ list value, best list = some value ↔
      value ∈ list ∧ ∀ other ∈ list, better other value)
    (found : ∀ list, list ≠ [] → ∃ value, best list = some value) :
    (best lists.flatten).getD default =
      (best (lists.map fun list => (best list).getD default)).getD default := by
  cases lists with
  | nil => rfl
  | cons list rest =>
      obtain ⟨first, others, cons⟩ := List.exists_cons_of_ne_nil (nonempty list List.mem_cons_self)
      have filled : (list :: rest).flatten ≠ [] := by simp [cons]
      obtain ⟨value, wins⟩ := found _ filled
      obtain ⟨member, beats⟩ := (spec _ value).mp wins
      have among : ∀ part ∈ list :: rest, ∃ own, best part = some own ∧ own ∈ part :=
        fun part listed => by
          obtain ⟨own, winner⟩ := found part (nonempty part listed)
          exact ⟨own, winner, ((spec part own).mp winner).1⟩
      have again : best ((list :: rest).map fun part => (best part).getD default) =
          some value := by
        refine (spec _ value).mpr ⟨?_, fun other listed => ?_⟩
        · obtain ⟨part, listed, inside⟩ := List.mem_flatten.mp member
          have own : best part = some value :=
            (spec part value).mpr ⟨inside, fun other there =>
              beats other (List.mem_flatten.mpr ⟨part, listed, there⟩)⟩
          exact List.mem_map.mpr ⟨part, listed, by rw [own]; rfl⟩
        · obtain ⟨part, inside, rfl⟩ := List.mem_map.mp listed
          obtain ⟨own, winner, there⟩ := among part inside
          rw [winner]
          exact beats own (List.mem_flatten.mpr ⟨part, inside, there⟩)
      rw [wins, again]

end Aggregates

end Grouping
