import Numera.Relay.Service

/-! # Association roots

`pool.tree.ts`: the association-set tree over the labels of the deposits, and the history of the
roots it has passed through. The history is made in one pass, by one tree that grows. It is the
same as building the tree anew for every list of leaves that ended in a labelled deposit
(`aspRootHistory_eq`), and what a withdrawal admits are the last 32 of these.

The tree is zk-kit's `LeanIMT`, of which nothing is used but that inserting a leaf and reading the
root are functions.
-/

namespace Numera

/-- `LeanIMT` with its hash. -/
structure LeanImt (T : Type) where
  empty : T
  insert : T → Int → T
  root : T → Int

namespace PoolTree

variable {T : Type} (imt : LeanImt T)

/-- The label under which a leaf is in the set, if it is a labelled deposit. -/
def approval (leaf : PoolLeaf) : Option JsString :=
  if leaf.kind = .deposit then leaf.label else none

/-- The loop of `buildAspTree`. -/
def insertLabels (tree : T) : List PoolLeaf → Except RelayError T
  | [] => .ok tree
  | leaf :: rest =>
      match approval leaf with
      | none => insertLabels tree rest
      | some label => do
          let value ← bigInt label
          insertLabels (imt.insert tree value) rest

/-- The association-set tree, over deposit labels only. -/
def buildAspTree (leaves : List PoolLeaf) : Except RelayError T := insertLabels imt imt.empty leaves

/-- The loop of `aspRootHistory`: the tree that grows, and the roots so far. -/
def pushRoots (tree : T) (roots : List Int) : List PoolLeaf → Except RelayError (List Int)
  | [] => .ok roots
  | leaf :: rest =>
      match approval leaf with
      | none => pushRoots tree roots rest
      | some label => do
          let value ← bigInt label
          let tree := imt.insert tree value
          pushRoots tree (roots ++ [imt.root tree]) rest

/-- `roots.slice(-depth)`: `slice(-0)` is `slice(0)`. -/
def sliceLast (depth : Nat) (roots : List Int) : List Int :=
  if depth = 0 then roots else roots.drop (roots.length - depth)

/-- Every root this set has passed through, oldest first, capped at the most recent `depth`. -/
def aspRootHistory (leaves : List PoolLeaf) (depth : Nat) : Except RelayError (List Int) := do
  let roots ← pushRoots imt imt.empty [] leaves
  return sliceLast depth roots

/-! ## One pass -/

/-- The labels of the set, in chain order. -/
def labels (leaves : List PoolLeaf) : List JsString := leaves.filterMap approval

/-- Every label can be read as a number. -/
def Readable (leaves : List PoolLeaf) : Prop :=
  ∀ leaf ∈ leaves, ∀ label, approval leaf = some label → ∃ value, bigInt label = .ok value

/-- The number a label stands for. -/
def labelValue (label : JsString) : Int :=
  match bigInt label with
  | .ok value => value
  | .error _ => 0

/-- The tree of some numbers. -/
def treeOf (tree : T) (values : List Int) : T := values.foldl imt.insert tree

variable {imt} {leaves : List PoolLeaf}

theorem bigInt_of_readable (readable : Readable leaves) {label : JsString}
    (among : label ∈ labels leaves) : bigInt label = .ok (labelValue label) := by
  obtain ⟨leaf, member, approved⟩ := List.mem_filterMap.mp among
  obtain ⟨value, read⟩ := readable leaf member label approved
  rw [labelValue, read]

theorem Readable.tail {leaf : PoolLeaf} {rest : List PoolLeaf} (readable : Readable (leaf :: rest)) :
    Readable rest := fun other member => readable other (List.mem_cons_of_mem _ member)

theorem Readable.of_earlier {earlier : List PoolLeaf} (readable : Readable leaves)
    (before : earlier <+: leaves) : Readable earlier :=
  fun leaf member => readable leaf (before.subset member)

theorem insertLabels_eq (readable : Readable leaves) (tree : T) :
    insertLabels imt tree leaves = .ok (treeOf imt tree ((labels leaves).map labelValue)) := by
  induction leaves generalizing tree with
  | nil => rfl
  | cons leaf rest ih =>
      have later := ih readable.tail
      cases approved : approval leaf with
      | none =>
          rw [labels, List.filterMap_cons_none approved]
          simp only [insertLabels, approved]
          exact later tree
      | some label =>
          have among : label ∈ labels (leaf :: rest) :=
            List.mem_filterMap.mpr ⟨leaf, List.mem_cons_self, approved⟩
          rw [labels, List.filterMap_cons_some approved]
          simp only [insertLabels, approved, bigInt_of_readable readable among]
          exact later _

/-- The tree of the leaves is the tree of their labels. -/
theorem buildAspTree_eq (readable : Readable leaves) :
    buildAspTree imt leaves = .ok (treeOf imt imt.empty ((labels leaves).map labelValue)) :=
  insertLabels_eq readable imt.empty

/-- The prefixes of a list that are not empty, when it starts with an element. -/
theorem inits_tail_cons {α : Type} (first : α) (rest : List α) :
    (first :: rest).inits.tail = [first] :: rest.inits.tail.map (first :: ·) := by
  cases rest <;> simp

/-- The roots a growing tree passes through. -/
theorem pushRoots_eq (readable : Readable leaves) (tree : T) (roots : List Int) :
    pushRoots imt tree roots leaves = .ok (roots ++ (((labels leaves).map labelValue).inits.tail.map
      fun values => imt.root (treeOf imt tree values))) := by
  induction leaves generalizing tree roots with
  | nil => simp [pushRoots, labels]
  | cons leaf rest ih =>
      have later := ih readable.tail
      cases approved : approval leaf with
      | none =>
          rw [labels, List.filterMap_cons_none approved]
          simp only [pushRoots, approved]
          exact later tree roots
      | some label =>
          have among : label ∈ labels (leaf :: rest) :=
            List.mem_filterMap.mpr ⟨leaf, List.mem_cons_self, approved⟩
          rw [labels, List.filterMap_cons_some approved, List.map_cons, inits_tail_cons]
          simp only [pushRoots, approved, bigInt_of_readable readable among]
          refine (later _ _).trans ?_
          rw [List.append_assoc, List.singleton_append, List.map_cons, List.map_map]
          rfl

/-! ## The prefixes that end in a labelled deposit -/

/-- The lists of leaves so far, as of each labelled deposit. -/
def approvedPrefixes (leaves : List PoolLeaf) : List (List PoolLeaf) :=
  leaves.inits.filter fun earlier => earlier.getLast?.any fun leaf => (approval leaf).isSome

theorem labels_append (first second : List PoolLeaf) :
    labels (first ++ second) = labels first ++ labels second := List.filterMap_append

/-- Their labels are what of the labels there was at each. -/
theorem labels_approvedPrefixes (leaves : List PoolLeaf) :
    (approvedPrefixes leaves).map labels = (labels leaves).inits.tail := by
  induction leaves using List.reverseRecOn with
  | nil => rfl
  | append_singleton before leaf ih =>
      have last : approvedPrefixes (before ++ [leaf]) =
          approvedPrefixes before ++
            if (approval leaf).isSome then [before ++ [leaf]] else [] := by
        rw [approvedPrefixes, List.inits_append, List.filter_append]
        simp [approvedPrefixes, List.filter_cons]
      rw [last, List.map_append, ih, labels_append]
      cases approved : approval leaf with
      | none => simp [labels, approved]
      | some label =>
          have single : labels [leaf] = [label] := by simp [labels, approved]
          have some : (labels before).inits ≠ [] := by
            refine List.ne_nil_of_length_pos ?_
            rw [List.length_inits]
            exact Nat.succ_pos _
          rw [single, List.inits_append, List.tail_append_of_ne_nil some]
          simp [labels_append, single]

theorem mem_approvedPrefixes {earlier : List PoolLeaf} :
    earlier ∈ approvedPrefixes leaves ↔
      earlier <+: leaves ∧ (earlier.getLast?.any fun leaf => (approval leaf).isSome) = true := by
  rw [approvedPrefixes, List.mem_filter, List.mem_inits]

/-- The root of the tree of some leaves. -/
def rootOf (imt : LeanImt T) (leaves : List PoolLeaf) : Int :=
  imt.root (treeOf imt imt.empty ((labels leaves).map labelValue))

/-- **The history is that of the rebuilt trees.** -/
theorem aspRootHistory_eq (readable : Readable leaves) (depth : Nat) :
    aspRootHistory imt leaves depth =
      .ok (sliceLast depth ((approvedPrefixes leaves).map (rootOf imt))) := by
  have roots : ((labels leaves).map labelValue).inits.tail.map
      (fun values => imt.root (treeOf imt imt.empty values)) =
        (approvedPrefixes leaves).map (rootOf imt) := by
    rw [List.map_inits, ← List.map_tail, ← labels_approvedPrefixes, List.map_map, List.map_map]
    rfl
  simp only [aspRootHistory, pushRoots_eq readable, List.nil_append, roots]
  rfl

theorem readLabels (readable : Readable leaves) :
    (labels leaves).mapM bigInt = .ok ((labels leaves).map labelValue) := by
  have read : ∀ texts : List JsString, (∀ text ∈ texts, text ∈ labels leaves) →
      texts.mapM bigInt = (.ok (texts.map labelValue) : Except RelayError (List Int)) := by
    intro texts among
    induction texts with
    | nil => rfl
    | cons text rest ih =>
        rw [List.mapM_cons, bigInt_of_readable readable (among text List.mem_cons_self),
          ih fun other member => among other (List.mem_cons_of_mem _ member)]
        rfl
  exact read _ fun _ member => member

/-- The history a withdrawal consults is the one of 32 roots. -/
theorem consulted_eq {lib : RelayLibraries}
    (trees : ∀ values, lib.imtRoot values = imt.root (treeOf imt imt.empty values))
    (readable : Readable leaves) :
    PoolService.aspRootHistory lib leaves = aspRootHistory imt leaves 32 := by
  have same : (leaves.filter fun row => row.kind = .deposit).filterMap PoolLeaf.label =
      labels leaves := by
    rw [List.filterMap_filter, labels]
    refine List.filterMap_congr fun leaf _ => ?_
    simp [approval]
  have roots : ((labels leaves).map labelValue).inits.tail.map lib.imtRoot =
      ((labels leaves).map labelValue).inits.tail.map
        fun values => imt.root (treeOf imt imt.empty values) :=
    List.map_congr_left fun values _ => trees values
  simp only [PoolService.aspRootHistory, same, readLabels readable, aspRootHistory,
    pushRoots_eq readable, List.nil_append, ← roots]
  rfl

/-! ## What a withdrawal admits -/

/-- The number of deposits that have been put into the set. -/
def approvals (leaves : List PoolLeaf) : Nat := (labels leaves).length

theorem length_approvedPrefixes (leaves : List PoolLeaf) :
    (approvedPrefixes leaves).length = approvals leaves := by
  rw [← List.length_map labels, labels_approvedPrefixes, List.length_tail, List.length_inits]
  rfl

/-- The prefixes of a longer list are those of the shorter, and one for each deposit since. -/
theorem approvedPrefixes_append (earlier later : List PoolLeaf) :
    ∃ more, approvedPrefixes (earlier ++ later) = approvedPrefixes earlier ++ more ∧
      more.length = approvals later := by
  refine ⟨(later.inits.tail.map fun since => earlier ++ since).filter fun whole =>
    whole.getLast?.any fun leaf => (approval leaf).isSome, ?_, ?_⟩
  · rw [approvedPrefixes, List.inits_append, List.filter_append]
    rfl
  · have whole := length_approvedPrefixes (earlier ++ later)
    rw [approvals, labels_append, List.length_append, approvedPrefixes, List.inits_append,
      List.filter_append, List.length_append] at whole
    have first := length_approvedPrefixes earlier
    rw [approvals, approvedPrefixes] at first
    rw [approvals]
    omega

/-- The last of the prefixes has the tree of all leaves. -/
theorem getLast?_roots (some : 0 < approvals leaves) :
    ((approvedPrefixes leaves).map (rootOf imt)).getLast? = Option.some (rootOf imt leaves) := by
  have last : (labels leaves).inits.tail.getLast? = Option.some (labels leaves) := by
    rcases List.eq_nil_or_concat (labels leaves) with none | ⟨before, label, split⟩
    · rw [approvals, none] at some
      cases some
    · have full : before.inits ≠ [] := List.ne_nil_of_length_pos (by simp [List.length_inits])
      rw [split, List.concat_eq_append, List.inits_append, List.tail_append_of_ne_nil full]
      simp
  have mapped : (approvedPrefixes leaves).map (rootOf imt) =
      ((approvedPrefixes leaves).map labels).map fun texts =>
        imt.root (treeOf imt imt.empty (texts.map labelValue)) := by
    rw [List.map_map]
    rfl
  rw [mapped, labels_approvedPrefixes, List.getLast?_map, last]
  rfl

/-- A root that fewer than 32 deposits have followed is consulted. -/
theorem consulted_of_recent {earlier later : List PoolLeaf} (some : 0 < approvals earlier)
    (recent : approvals later < 32) :
    rootOf imt earlier ∈
      sliceLast 32 ((approvedPrefixes (earlier ++ later)).map (rootOf imt)) := by
  obtain ⟨more, split, count⟩ := approvedPrefixes_append earlier later
  have newest : ((approvedPrefixes earlier).map (rootOf imt)).getLast? = _ := getLast?_roots some
  obtain ⟨front, roots⟩ := List.getLast?_eq_some_iff.mp newest
  rw [sliceLast, if_neg (by decide), split, List.map_append, roots, List.append_assoc,
    List.singleton_append]
  have length : (front ++ rootOf imt earlier :: more.map (rootOf imt)).length - 32 ≤
      front.length := by
    simp only [List.length_append, List.length_cons, List.length_map]
    omega
  rw [List.drop_append_of_le_length length]
  exact List.mem_append_right _ List.mem_cons_self

/-- The trees rebuilt at each labelled deposit. -/
theorem rebuiltRoots (readable : Readable leaves) :
    (approvedPrefixes leaves).mapM (fun earlier => imt.root <$> buildAspTree imt earlier) =
      .ok ((approvedPrefixes leaves).map (rootOf imt)) := by
  have rebuilt : ∀ mirrors : List (List PoolLeaf),
      (∀ earlier ∈ mirrors, earlier ∈ approvedPrefixes leaves) →
      mirrors.mapM (fun earlier => imt.root <$> buildAspTree imt earlier) =
        (.ok (mirrors.map (rootOf imt)) : Except RelayError (List Int)) := by
    intro mirrors among
    induction mirrors with
    | nil => rfl
    | cons earlier rest ih =>
        have before := (mem_approvedPrefixes.mp (among earlier List.mem_cons_self)).1
        rw [List.mapM_cons, buildAspTree_eq (readable.of_earlier before),
          ih fun other member => among other (List.mem_cons_of_mem _ member)]
        rfl
  exact rebuilt _ fun _ member => member

theorem approvals_pos {earlier : List PoolLeaf}
    (last : (earlier.getLast?.any fun leaf => (approval leaf).isSome) = true) :
    0 < approvals earlier := by
  cases ended : earlier.getLast? with
  | none => simp [ended] at last
  | some leaf =>
      rw [ended] at last
      obtain ⟨label, approved⟩ := Option.isSome_iff_exists.mp last
      have among : label ∈ labels earlier :=
        List.mem_filterMap.mpr ⟨leaf, List.mem_of_getLast? ended, approved⟩
      exact List.length_pos_iff.mpr (List.ne_nil_of_mem among)

theorem recognised_iff {known signals : List Int} {root : Int} :
    PoolService.recognised known signals = .ok root ↔
      signals[PoolService.aspRootSignal]? = some root ∧ root ∈ known := by
  unfold PoolService.recognised
  split
  · rename_i found
    split
    · rename_i member
      simp only [found, Except.ok.injEq, Option.some.injEq]
      exact ⟨fun same => ⟨same, same ▸ member⟩, And.left⟩
    · rename_i missing
      simp only [found, reduceCtorEq, Option.some.injEq, false_iff, not_and]
      rintro rfl
      exact missing
  · rename_i missing
    simp [missing]

/-- **Recent association roots are accepted and nothing else is.** The history is the last of the
roots of the trees rebuilt at each labelled deposit. A withdrawal that was proved against the tree
of an earlier mirror passes while fewer than 32 labelled deposits have followed, one proved against
the current tree always does, and what passes was proved against one of these trees. -/
theorem associationRoots_exact {lib : RelayLibraries}
    (trees : ∀ values, lib.imtRoot values = imt.root (treeOf imt imt.empty values))
    (readable : Readable leaves) :
    (∀ depth, 1 ≤ depth → ∃ roots,
        (approvedPrefixes leaves).mapM (fun earlier => imt.root <$> buildAspTree imt earlier) =
            .ok roots ∧
          aspRootHistory imt leaves depth = .ok (roots.drop (roots.length - depth)) ∧
          roots.length = approvals leaves) ∧
      ∃ known, PoolService.aspRootHistory lib leaves = .ok known ∧
        (∀ earlier later tree signals, leaves = earlier ++ later → 0 < approvals earlier →
          approvals later < 32 → buildAspTree imt earlier = .ok tree →
          signals[PoolService.aspRootSignal]? = some (imt.root tree) →
          PoolService.recognised known signals = .ok (imt.root tree)) ∧
        (∀ tree signals, 0 < approvals leaves → buildAspTree imt leaves = .ok tree →
          signals[PoolService.aspRootSignal]? = some (imt.root tree) →
          PoolService.recognised known signals = .ok (imt.root tree)) ∧
        ∀ signals root, PoolService.recognised known signals = .ok root →
          ∃ earlier tree, earlier <+: leaves ∧ 0 < approvals earlier ∧
            buildAspTree imt earlier = .ok tree ∧ root = imt.root tree := by
  have passes : ∀ earlier later tree (signals : List Int), leaves = earlier ++ later →
      0 < approvals earlier → approvals later < 32 → buildAspTree imt earlier = .ok tree →
      signals[PoolService.aspRootSignal]? = some (imt.root tree) →
      PoolService.recognised (sliceLast 32 ((approvedPrefixes leaves).map (rootOf imt))) signals =
        .ok (imt.root tree) := by
    rintro earlier later tree signals rfl some recent built signalled
    rw [buildAspTree_eq (readable.of_earlier (List.prefix_append _ _))] at built
    obtain rfl := Except.ok.inj built
    exact recognised_iff.mpr ⟨signalled, consulted_of_recent some recent⟩
  refine ⟨fun depth positive => ?_, _, ?_, passes, ?_, ?_⟩
  · refine ⟨(approvedPrefixes leaves).map (rootOf imt), ?_, ?_, ?_⟩
    · exact rebuiltRoots readable
    · rw [aspRootHistory_eq readable, sliceLast, if_neg (by omega)]
    · rw [List.length_map, length_approvedPrefixes]
  · rw [consulted_eq trees readable, aspRootHistory_eq readable]
  · exact fun tree signals some => passes leaves [] tree signals (by simp) some (by decide)
  · intro signals root admitted
    obtain ⟨-, known⟩ := recognised_iff.mp admitted
    have among : root ∈ (approvedPrefixes leaves).map (rootOf imt) := by
      rw [sliceLast, if_neg (by decide)] at known
      exact List.mem_of_mem_drop known
    obtain ⟨earlier, ended, rfl⟩ := List.mem_map.mp among
    obtain ⟨before, last⟩ := mem_approvedPrefixes.mp ended
    refine ⟨earlier, _, before, approvals_pos last,
      buildAspTree_eq (readable.of_earlier before), rfl⟩

open SampleRelay in
/-- A proof against the first deposit, whose root is 1, passes after a withdrawal has left change
and a second deposit has been made. -/
theorem associationRoots_ofTwo :
    let change : PoolLeaf := { deposit 3 with kind := .change, label := none }
    ∃ known, PoolService.aspRootHistory libraries [deposit 1, change, deposit 2] = .ok known ∧
      ∀ signals : List Int, signals[PoolService.aspRootSignal]? = some 1 →
        PoolService.recognised known signals = .ok 1 := by
  intro change
  let imt : LeanImt (List Int) := ⟨[], fun values value => values ++ [value], libraries.imtRoot⟩
  have grown : ∀ values tree : List Int, treeOf imt tree values = tree ++ values := by
    intro values
    induction values with
    | nil => exact fun tree => (List.append_nil tree).symm
    | cons value rest ih => exact fun tree => (ih _).trans (List.append_cons tree value rest).symm
  have trees : ∀ values, libraries.imtRoot values = imt.root (treeOf imt imt.empty values) :=
    fun values => congrArg _ (grown values []).symm
  have readable : Readable [deposit 1, change, deposit 2] := by
    intro leaf member label approved
    simp only [List.mem_cons, List.not_mem_nil, or_false] at member
    rcases member with rfl | rfl | rfl
    · obtain rfl := Option.some.inj approved
      exact ⟨1, by decide +kernel⟩
    · cases approved
    · obtain rfl := Option.some.inj approved
      exact ⟨2, by decide +kernel⟩
  obtain ⟨-, known, consulted, passes, -, -⟩ := associationRoots_exact trees readable
  refine ⟨known, consulted, fun signals signalled => ?_⟩
  exact passes [deposit 1] [change, deposit 2] [1] signals rfl (by decide) (by decide)
    (by decide +kernel) signalled

end PoolTree

end Numera
