import Mathlib.Data.List.Nodup
import Mathlib.Data.List.Sort
import Mathlib.Tactic.Common

/-! # Scanning a chain block by block

Items of a chain carry the number of their block and their index within it. The
scan of a span of blocks goes block by block and takes the items of each in
order of their indices. Where no two items share a position the scan is the only
ordered list of the items of the span (`eq_scan`), so fetching the span in
pieces, in any order, and sorting gives the scan, and the scans of consecutive
spans put together are the scan of both (`scan_append`).
-/

namespace BlockScan

variable {α : Type} (block index : α → Nat)

/-- Chain order: block first, then index within the block. -/
def Before (x y : α) : Prop := block x < block y ∨ block x = block y ∧ index x ≤ index y

instance (x y : α) : Decidable (Before block index x y) :=
  inferInstanceAs (Decidable (_ ∨ _))

/-- The items of one block in order. -/
def ofBlock (items : List α) (number : Nat) : List α :=
  (items.filter fun item => block item = number).insertionSort (Before block index)

/-- The items of the blocks from one to another, both included, block by block. -/
def scan (items : List α) (first last : Nat) : List α :=
  (List.range' first (last + 1 - first)).flatMap (ofBlock block index items)

/-- The items of a span of blocks, in no particular order. -/
def within (items : List α) (first last : Nat) : List α :=
  items.filter fun item => first ≤ block item ∧ block item ≤ last

/-- No two items have the same position. -/
def Distinct (items : List α) : Prop := (items.map fun item => (block item, index item)).Nodup

variable {block index} {items answer : List α} {first middle last : Nat}

instance : IsTrans α (Before block index) := by
  refine ⟨fun x y z one two => ?_⟩
  unfold Before at *
  omega

instance : Std.Total (Before block index) := by
  refine ⟨fun x y => ?_⟩
  unfold Before
  omega

@[simp] theorem mem_within {item : α} :
    item ∈ within block items first last ↔ item ∈ items ∧ first ≤ block item ∧ block item ≤ last := by
  simp [within]

@[simp] theorem mem_ofBlock {item : α} {number : Nat} :
    item ∈ ofBlock block index items number ↔ item ∈ items ∧ block item = number := by
  simp [ofBlock]

@[simp] theorem mem_scan {item : α} :
    item ∈ scan block index items first last ↔
      item ∈ items ∧ first ≤ block item ∧ block item ≤ last := by
  simp only [scan, List.mem_flatMap, List.mem_range'_1, mem_ofBlock]
  constructor
  · rintro ⟨number, bounds, member, rfl⟩
    exact ⟨member, by omega, by omega⟩
  · rintro ⟨member, above, below⟩
    exact ⟨block item, by omega, member, rfl⟩

/-- The scans of consecutive spans put together. -/
theorem scan_append (start : first ≤ middle + 1) (stop : middle ≤ last) :
    scan block index items first middle ++ scan block index items (middle + 1) last =
      scan block index items first last := by
  have joined : List.range' first (middle + 1 - first) ++
      List.range' (middle + 1) (last + 1 - (middle + 1)) = List.range' first (last + 1 - first) := by
    have second : middle + 1 = first + (middle + 1 - first) := by omega
    have length : middle + 1 - first + (last + 1 - (middle + 1)) = last + 1 - first := by omega
    calc List.range' first (middle + 1 - first) ++
          List.range' (middle + 1) (last + 1 - (middle + 1))
        = List.range' first (middle + 1 - first) ++
            List.range' (first + (middle + 1 - first)) (last + 1 - (middle + 1)) := by
          rw [← second]
      _ = List.range' first (last + 1 - first) := by
          rw [List.range'_append_1, length]
  rw [scan, scan, ← List.flatMap_append, joined]
  rfl

/-- A list sorted by a comparison that agrees with chain order is in chain order. -/
theorem pairwise_insertionSort {order : α → α → Prop} [DecidableRel order]
    (agrees : ∀ x y, order x y ↔ Before block index x y) (items : List α) :
    (items.insertionSort order).Pairwise (Before block index) := by
  have same : order = Before block index := funext fun x => funext fun y => propext (agrees x y)
  subst same
  exact List.pairwise_insertionSort _ items

/-- The scan of a span up to a block above all of its items is a beginning of every
longer scan, and of every shorter one that ends above them as well. -/
theorem scan_prefix {stop : Nat} (start : first ≤ last + 1) (stopped : first ≤ stop + 1)
    (below : ∀ item ∈ scan block index items first last, block item ≤ stop) :
    ∃ rest, scan block index items first stop = scan block index items first last ++ rest := by
  by_cases longer : last ≤ stop
  · exact ⟨_, (scan_append start longer).symm⟩
  · have joined : scan block index items first stop ++ scan block index items (stop + 1) last =
        scan block index items first last := scan_append stopped (Nat.le_of_not_le longer)
    have empty : scan block index items (stop + 1) last = [] := by
      refine List.eq_nil_iff_forall_not_mem.mpr fun item member => ?_
      obtain ⟨listed, above, within⟩ := mem_scan.mp member
      have bounded := below item (mem_scan.mpr ⟨listed, by omega, within⟩)
      omega
    rw [empty, List.append_nil] at joined
    exact ⟨[], by rw [joined, List.append_nil]⟩

theorem pairwise_scan : (scan block index items first last).Pairwise (Before block index) := by
  rw [scan, List.flatMap, List.pairwise_flatten, List.pairwise_map]
  refine ⟨?_, ?_⟩
  · intro part member
    obtain ⟨number, -, rfl⟩ := List.mem_map.mp member
    exact pairwise_insertionSort (fun x y => Iff.rfl) _
  · refine (List.pairwise_lt_range' 1).imp ?_
    intro earlier later less x inEarlier y inLater
    rw [mem_ofBlock] at inEarlier inLater
    left
    omega

theorem Distinct.nodup (distinct : Distinct block index items) : items.Nodup :=
  List.Nodup.of_map _ distinct

/-- Items of one position are one item. -/
theorem Distinct.eq_of_before {x y : α} (distinct : Distinct block index items)
    (inX : x ∈ items) (inY : y ∈ items) (one : Before block index x y)
    (two : Before block index y x) : x = y := by
  have samePosition : (block x, index x) = (block y, index y) := by
    unfold Before at one two
    rw [Prod.mk.injEq]
    omega
  exact List.inj_on_of_nodup_map distinct inX inY samePosition

theorem Distinct.perm {others : List α} (distinct : Distinct block index items)
    (same : items.Perm others) : Distinct block index others :=
  (same.map _).nodup_iff.mp distinct

theorem nodup_scan (distinct : Distinct block index items) :
    (scan block index items first last).Nodup := by
  rw [scan, List.nodup_flatMap]
  refine ⟨fun number _ => ?_, (List.pairwise_lt_range' 1).imp ?_⟩
  · exact (List.perm_insertionSort _ _).nodup_iff.mpr (distinct.nodup.filter _)
  · intro earlier later less item inEarlier inLater
    rw [mem_ofBlock] at inEarlier inLater
    omega

/-- The scan has the items of its span, each once. -/
theorem perm_scan (distinct : Distinct block index items) :
    (scan block index items first last).Perm (within block items first last) := by
  refine (List.perm_ext_iff_of_nodup (nodup_scan distinct) (distinct.nodup.filter _)).mpr
    fun item => ?_
  exact mem_scan.trans mem_within.symm

/-- **The scan is the only ordered list of the items of its span.** -/
theorem eq_scan (distinct : Distinct block index items)
    (all : answer.Perm (within block items first last))
    (ordered : answer.Pairwise (Before block index)) :
    answer = scan block index items first last := by
  refine List.Perm.eq_of_pairwise (fun x y inX inY one two => ?_) ordered pairwise_scan
    (all.trans (perm_scan distinct).symm)
  have memberX := (mem_within.mp (all.subset inX)).1
  have memberY := (mem_scan.mp inY).1
  exact distinct.eq_of_before memberX memberY one two

/-- Sorting the items of a span by a comparison that agrees with chain order. -/
theorem insertionSort_eq_scan {order : α → α → Prop} [DecidableRel order]
    (agrees : ∀ x y, order x y ↔ Before block index x y) (distinct : Distinct block index items)
    (all : answer.Perm (within block items first last)) :
    answer.insertionSort order = scan block index items first last :=
  eq_scan distinct ((List.perm_insertionSort order answer).trans all)
    (pairwise_insertionSort agrees _)

/-- Sorting a scan leaves it as it is. -/
theorem insertionSort_scan {order : α → α → Prop} [DecidableRel order]
    (agrees : ∀ x y, order x y ↔ Before block index x y) :
    (scan block index items first last).insertionSort order =
      scan block index items first last :=
  (pairwise_scan.imp fun {x y} before => (agrees x y).mpr before).insertionSort_eq

/-! ## Scanning behind a cursor -/

/-- The block after a cursor, or the start block where there is none. -/
def next (start : Nat) : Option Nat → Nat
  | none => start
  | some last => last + 1

variable (block index) in
/-- The scan from a start block to a cursor. -/
def upTo (items : List α) (start : Nat) : Option Nat → List α
  | none => []
  | some last => scan block index items start last

theorem mem_upTo {start : Nat} {cursor : Option Nat} {item : α}
    (member : item ∈ upTo block index items start cursor) : item ∈ items := by
  cases cursor with
  | none => cases member
  | some last => exact (mem_scan.mp member).1

theorem nodup_upTo {start : Nat} (distinct : Distinct block index items) (cursor : Option Nat) :
    (upTo block index items start cursor).Nodup := by
  cases cursor with
  | none => exact List.nodup_nil
  | some last => exact nodup_scan distinct

/-- **Advancing a cursor.** The scan of the span after a cursor extends the scan up to
it, to the scan up to the end of the span. -/
theorem upTo_extend {start : Nat} {cursor : Option Nat}
    (started : ∀ lastBlock, cursor = some lastBlock → start ≤ lastBlock)
    (ahead : next start cursor ≤ last) :
    upTo block index items start (some last) =
      upTo block index items start cursor ++ scan block index items (next start cursor) last := by
  cases cursor with
  | none => rfl
  | some lastBlock =>
      have begun : start ≤ lastBlock := started lastBlock rfl
      have stop : lastBlock ≤ last := by
        change lastBlock + 1 ≤ last at ahead
        omega
      exact (scan_append (by omega) stop).symm

/-- A cursor that has advanced is not before the start block. -/
theorem start_le_of_next_le {start : Nat} {cursor : Option Nat}
    (started : ∀ lastBlock, cursor = some lastBlock → start ≤ lastBlock)
    (ahead : next start cursor ≤ last) : start ≤ last := by
  cases cursor with
  | none => exact ahead
  | some lastBlock =>
      have begun : start ≤ lastBlock := started lastBlock rfl
      change lastBlock + 1 ≤ last at ahead
      omega

end BlockScan
