import Numera.Foundation.Decimal
import Numera.Pool.LeafMirror
import Numera.Relay.AssociationRoots

/-! # The served state

`PoolService.state`: the leaves, the roots and the scope a browser builds a withdrawal
proof from. Between any two calls of a request the indexer may run, and so it may
between the request and the withdrawal. What was served stays good all the same: the
leaves that were served keep their places in everything served later, the tree over them
is the pool's own as of the block the mirror stood at, and the association root that was
served is recognised until 32 more deposits have been mirrored (`served_state_lasts`).
-/

namespace Numera

open Async (Reaches)

/-! ## Trees -/

namespace PoolTree

variable {T : Type} (imt : LeanImt T)

/-- The loop of `buildStateTree`, over the commitments of the leaves. -/
def insertCommitments (tree : T) : List JsString → Except RelayError T
  | [] => .ok tree
  | commitment :: rest => do
      let value ← bigInt commitment
      insertCommitments (imt.insert tree value) rest

/-- The state tree, over every commitment in insertion order. -/
def buildStateTree (leaves : List PoolLeaf) : Except RelayError T :=
  insertCommitments imt imt.empty (leaves.map PoolLeaf.commitment)

/-- `buildAspTree(rows).root?.toString() ?? '0'`: there is no root before the first leaf. -/
def aspRootText (leaves : List PoolLeaf) : Except RelayError JsString := do
  let tree ← buildAspTree imt leaves
  return if labels leaves = [] then JsString.ascii "0" else JsString.ofInt (imt.root tree)

end PoolTree

/-! ## Calls -/

/-- The numbers that are read from the two contracts of the pool. -/
inductive PoolUint where
  | scope
  | currentRoot
  | latestRoot

/-- The calls of `state`. Those of the memo and of the flag are reads and writes of the
fields of the services themselves. -/
inductive PoolStateCall where
  | findLeaves
  | cachedScope
  | readUint (address : JsString) (fn : PoolUint)
  | cacheScope (scope : Nat)
  | isSynced

@[reducible] def PoolStateCall.Answer : PoolStateCall → Type
  | findLeaves => List PoolLeaf
  | cachedScope => Option Nat
  | readUint _ _ => Nat
  | cacheScope _ => Unit
  | isSynced => Bool

/-- A computation that only reads the pool. -/
abbrev PoolReading (α : Type) : Type := Async PoolStateCall.Answer RelayError α

/-- What the configuration says of the pool; `isEnabled` also needs a chain that is ready. -/
structure PoolStateConfig where
  isEnabled : Bool
  chainId : Nat
  entrypoint : Option JsString
  privacyPool : Option JsString
  usdc : Option JsString

structure PoolStateView where
  enabled : Bool
  chainId : Nat
  entrypoint : JsString
  privacyPool : JsString
  asset : JsString
  scope : JsString
  stateRoot : JsString
  onChainAspRoot : JsString
  aspRoot : JsString
  synced : Bool
  leaves : List PoolLeafView

namespace PoolService

/-- Await one call. -/
def reading (call : PoolStateCall) : PoolReading call.Answer := Async.perform call

variable (cfg : PoolStateConfig)

def readPool (fn : PoolUint) : PoolReading Nat :=
  reading (.readUint (cfg.privacyPool.getD []) fn)

def readEntrypoint (fn : PoolUint) : PoolReading Nat :=
  reading (.readUint (cfg.entrypoint.getD []) fn)

/-- `SCOPE()` never changes for a deployed pool, so it is read once. -/
def scope : PoolReading Nat := do
  let cached : Option Nat ← reading .cachedScope
  match cached with
  | some scope => return scope
  | none => do
      let scope ← readPool cfg .scope
      reading (.cacheScope scope)
      return scope

/-- What a pool that is not enabled answers. -/
def disabledState : PoolStateView where
  enabled := false
  chainId := cfg.chainId
  entrypoint := []
  privacyPool := []
  asset := []
  scope := JsString.ascii "0"
  stateRoot := JsString.ascii "0"
  onChainAspRoot := JsString.ascii "0"
  aspRoot := JsString.ascii "0"
  synced := false
  leaves := []

/-- The three numbers are asked for together and each may be answered at any time; here
one after the other, with the indexer free to run before each. -/
def state {T : Type} (imt : LeanImt T) : PoolReading PoolStateView := do
  if !cfg.isEnabled then return disabledState cfg
  else do
    let rows : List PoolLeaf ← reading .findLeaves
    let scope ← scope cfg
    let stateRoot ← readPool cfg .currentRoot
    let onChainAspRoot ← readEntrypoint cfg .latestRoot
    let aspRoot ← Async.done (PoolTree.aspRootText imt rows)
    let synced : Bool ← reading .isSynced
    return {
      enabled := true
      chainId := cfg.chainId
      entrypoint := cfg.entrypoint.getD []
      privacyPool := cfg.privacyPool.getD []
      asset := cfg.usdc.getD []
      scope := decimalString scope
      stateRoot := decimalString stateRoot
      onChainAspRoot := decimalString onChainAspRoot
      aspRoot
      synced
      leaves := rows.mapIdx PoolLeaf.view }

end PoolService

/-! ## The services -/

/-- The pool's index and the memo of its scope. -/
structure PoolServiceWorld where
  pool : PoolWorld
  cachedScope : Option Nat

/-- What is on chain: the scope, and the root of the state tree after each block. -/
structure PoolContracts where
  scope : Nat
  currentRoot : Nat → Nat

/-- The assignment and the reads of fields are the steps that cannot fail. -/
def PoolStateCall.mayFail : PoolStateCall → Bool
  | findLeaves | readUint _ _ => true
  | _ => false

/-- What happens before a call is answered: the indexer runs, and other requests may
have filled the memo. -/
structure PoolPasses (cfg : PoolIndexerConfig) (logs : List RawPoolLog) (contracts : PoolContracts)
    (before : PoolServiceWorld) (heads : List Nat) (later : PoolServiceWorld) : Prop where
  indexed : PoolRun cfg logs before.pool heads later.pool
  memo : later.cachedScope = before.cachedScope ∨ later.cachedScope = some contracts.scope

/-- What the services may answer. A node answers for any block it likes. The heads that
the indexer reads meanwhile are recorded. -/
inductive ServesPoolState (cfg : PoolIndexerConfig) (logs : List RawPoolLog)
    (contracts : PoolContracts) :
    Async.Environment PoolStateCall.Answer RelayError PoolServiceWorld Nat where
  | rejected {op before heads later} (passes : PoolPasses cfg logs contracts before heads later)
      (thrown : RelayError) (fails : op.mayFail) :
      ServesPoolState cfg logs contracts op before (.error thrown) heads later
  | leaves {before heads later} (passes : PoolPasses cfg logs contracts before heads later) :
      ServesPoolState cfg logs contracts .findLeaves before
        (.ok (PoolService.leaves later.pool.store)) heads later
  | cachedScope {before heads later} (passes : PoolPasses cfg logs contracts before heads later) :
      ServesPoolState cfg logs contracts .cachedScope before (.ok later.cachedScope) heads later
  | scope {before heads later} (passes : PoolPasses cfg logs contracts before heads later)
      (address : JsString) :
      ServesPoolState cfg logs contracts (.readUint address .scope) before (.ok contracts.scope)
        heads later
  | currentRoot {before heads later} (passes : PoolPasses cfg logs contracts before heads later)
      (address : JsString) (block : Nat) :
      ServesPoolState cfg logs contracts (.readUint address .currentRoot) before
        (.ok (contracts.currentRoot block)) heads later
  | latestRoot {before heads later} (passes : PoolPasses cfg logs contracts before heads later)
      (address : JsString) (root : Nat) :
      ServesPoolState cfg logs contracts (.readUint address .latestRoot) before (.ok root) heads
        later
  | cacheScope {before heads later} (passes : PoolPasses cfg logs contracts before heads later)
      (scope : Nat) :
      ServesPoolState cfg logs contracts (.cacheScope scope) before (.ok ()) heads
        { later with cachedScope := some scope }
  | isSynced {before heads later} (passes : PoolPasses cfg logs contracts before heads later) :
      ServesPoolState cfg logs contracts .isSynced before (.ok later.pool.caughtUp) heads later

variable {cfg : PoolIndexerConfig} {logs : List RawPoolLog} {contracts : PoolContracts}

/-! ## Runs of the indexer -/

theorem PoolRun.trans {start middle world : PoolWorld} {heads more : List Nat}
    (first : PoolRun cfg logs start heads middle) (second : PoolRun cfg logs middle more world) :
    PoolRun cfg logs start (heads ++ more) world := by
  induction second with
  | here =>
      rw [List.append_nil]
      exact first
  | tick _ stopped ih =>
      rw [← List.append_assoc]
      exact .tick ih stopped
  | restart _ ih => exact .restart ih

/-- The leaves up to a later cursor are more leaves after the earlier ones. -/
theorem leavesUpTo_append {startBlock : Nat} {leaves : List PoolLeaf} {earlier later : Option Nat}
    (started : ∀ block, earlier = some block → startBlock ≤ block)
    (advances : Advances earlier later) :
    ∃ newer, leavesUpTo leaves startBlock later = leavesUpTo leaves startBlock earlier ++ newer := by
  cases earlier with
  | none => exact ⟨_, rfl⟩
  | some block =>
      obtain ⟨reached, rfl, before⟩ := advances block rfl
      have begun : startBlock ≤ block := started block rfl
      exact ⟨_, (BlockScan.scan_append (Nat.le_succ_of_le begun) before).symm⟩

/-- **Rows are only added at the end.** What is read after a run begins with what was read
before it. -/
theorem PoolRun.leaves_append {world later : PoolWorld} {heads more : List Nat}
    (positive : 1 ≤ cfg.batchBlocks) (chain : ChainLeaves (leavesOf logs))
    (run : PoolRun cfg logs .initial heads world) (onward : PoolRun cfg logs world more later) :
    ∃ newer, PoolService.leaves later.store = PoolService.leaves world.store ++ newer := by
  have before := (run.mirrored positive chain).1
  have after := ((run.trans onward).mirrored positive chain).1
  rw [before.leaves_eq, after.leaves_eq]
  exact leavesUpTo_append before.started (onward.advances positive chain)

/-! ## What is on chain can be read -/

theorem bigInt_decimalString (value : Nat) : bigInt (decimalString value) = .ok (value : Int) := by
  have printed : decimalString value = JsString.ofInt value := by
    rw [decimalString, JsString.ascii_toString, JsString.ofInt, JsString.sign,
      if_neg (Int.not_lt.mpr (Int.natCast_nonneg value))]
    rfl
  rw [bigInt, printed, JsString.parseBigInt_ofInt]

theorem bigInt_ofInt (value : Int) : bigInt (JsString.ofInt value) = .ok value := by
  rw [bigInt, JsString.parseBigInt_ofInt]

/-- The labels of mirrored leaves are numbers. -/
theorem readable_leavesUpTo (startBlock : Nat) (cursor : Option Nat) :
    PoolTree.Readable (leavesUpTo (leavesOf logs) startBlock cursor) := by
  intro leaf member label approved
  obtain ⟨log, -, mirrored⟩ := mem_leavesOf_iff.mp (BlockScan.mem_upTo member)
  unfold PoolTree.approval at approved
  cases mirrored with
  | deposit event =>
      obtain rfl := Option.some.inj approved
      exact ⟨_, bigInt_decimalString _⟩
  | change event => cases approved

/-! ## One request -/

theorem ServesPoolState.indexed {op : PoolStateCall} {before later : PoolServiceWorld}
    {answer : Except RelayError op.Answer} {heads : List Nat}
    (served : ServesPoolState cfg logs contracts op before answer heads later) :
    PoolRun cfg logs before.pool heads later.pool := by
  cases served with
  | rejected passes => exact passes.indexed
  | leaves passes => exact passes.indexed
  | cachedScope passes => exact passes.indexed
  | scope passes => exact passes.indexed
  | currentRoot passes => exact passes.indexed
  | latestRoot passes => exact passes.indexed
  | cacheScope passes => exact passes.indexed
  | isSynced passes => exact passes.indexed

/-- While a request is served, the indexer runs. -/
theorem indexed_of_reaches {α : Type} {task standing : PoolReading α}
    {before later : PoolServiceWorld} {heads : List Nat}
    (path : Reaches (ServesPoolState cfg logs contracts) task before heads standing later) :
    PoolRun cfg logs before.pool heads later.pool := by
  induction path with
  | refl => exact .here
  | step first _ ih => exact first.indexed.trans ih

/-- The memo is empty, or holds the scope. -/
def ScopeKept (contracts : PoolContracts) (world : PoolServiceWorld) : Prop :=
  world.cachedScope = none ∨ world.cachedScope = some contracts.scope

theorem PoolPasses.scopeKept {before later : PoolServiceWorld} {heads : List Nat}
    (passes : PoolPasses cfg logs contracts before heads later)
    (kept : ScopeKept contracts before) : ScopeKept contracts later := by
  rcases passes.memo with same | filled
  · rw [ScopeKept, same]
    exact kept
  · exact .inr filled

/-- Whatever the memo holds, the scope that is returned is the one on chain, and the memo
then holds it. -/
theorem scope_returned {state : PoolStateConfig} {before later : PoolServiceWorld}
    {heads : List Nat} {scope : Nat} (kept : ScopeKept contracts before)
    (path : Reaches (ServesPoolState cfg logs contracts) (PoolService.scope state) before heads
      (.done (.ok scope)) later) :
    scope = contracts.scope ∧ later.cachedScope = some contracts.scope := by
  obtain ⟨cached, middle, _, _, -, found, continued⟩ := Reaches.bind_returned path
  cases Reaches.perform_returned found with
  | cachedScope passes =>
      have here := passes.scopeKept kept
      cases memo : middle.cachedScope with
      | some held =>
          rw [memo] at continued
          cases continued
          rw [ScopeKept, memo] at here
          rcases here with none | same
          · cases none
          · exact ⟨Option.some.inj same, memo.trans same⟩
      | none =>
          rw [memo] at continued
          obtain ⟨value, _, _, _, -, read, caching⟩ := Reaches.bind_returned continued
          cases Reaches.perform_returned read with
          | scope _ _ =>
              obtain ⟨_, _, _, _, -, cached, returned⟩ := Reaches.bind_returned caching
              cases Reaches.perform_returned cached with
              | cacheScope _ _ =>
                  cases returned
                  exact ⟨rfl, rfl⟩

/-- **A request that returned.** The leaves are those of one moment, before which and after
which the indexer may have run; the association root is that of their labels. -/
theorem state_returned {T : Type} {imt : LeanImt T} {state : PoolStateConfig}
    {before later : PoolServiceWorld} {heads : List Nat} {view : PoolStateView}
    (enabled : state.isEnabled = true) (kept : ScopeKept contracts before)
    (path : Reaches (ServesPoolState cfg logs contracts) (PoolService.state state imt) before heads
      (.done (.ok view)) later) :
    view.scope = decimalString contracts.scope ∧
      (∃ block, view.stateRoot = decimalString (contracts.currentRoot block)) ∧
      ∃ moment first second, PoolRun cfg logs before.pool first moment ∧
        PoolRun cfg logs moment second later.pool ∧ heads = first ++ second ∧
        view.leaves = PoolService.stateLeaves moment.store ∧
        PoolTree.aspRootText imt (PoolService.leaves moment.store) = .ok view.aspRoot := by
  unfold PoolService.state at path
  rw [enabled, Bool.not_true, if_neg Bool.false_ne_true] at path
  obtain ⟨rows, moment, first, second, split, found, continued⟩ := Reaches.bind_returned path
  cases Reaches.perform_returned found with
  | leaves passes =>
      have onward := indexed_of_reaches continued
      obtain ⟨scope, _, _, _, -, asked, continued⟩ := Reaches.bind_returned continued
      obtain ⟨rfl, -⟩ := scope_returned (passes.scopeKept kept) asked
      obtain ⟨stateRoot, _, _, _, -, rooted, continued⟩ := Reaches.bind_returned continued
      cases Reaches.perform_returned rooted with
      | currentRoot _ _ block =>
          obtain ⟨latest, _, _, _, -, published, continued⟩ := Reaches.bind_returned continued
          obtain ⟨aspRoot, _, _, _, -, computed, continued⟩ := Reaches.bind_returned continued
          obtain ⟨synced, _, _, _, -, flagged, returned⟩ := Reaches.bind_returned continued
          cases returned
          have text : PoolTree.aspRootText imt (PoolService.leaves moment.pool.store) =
              .ok aspRoot := by
            generalize PoolTree.aspRootText imt (PoolService.leaves moment.pool.store) = outcome
              at computed
            cases computed
            rfl
          exact ⟨rfl, ⟨block, rfl⟩, moment.pool, first, second, passes.indexed, onward, split, rfl,
            text⟩

/-! ## What was served lasts -/

/-- A leaf that is in the association set. -/
def PoolLeafView.approved (leaf : PoolLeafView) : Bool := leaf.kind = .deposit && leaf.label.isSome

theorem countP_approved (rows : List PoolLeaf) (place : Nat → Nat) :
    (rows.mapIdx fun index row => row.view (place index)).countP PoolLeafView.approved =
      PoolTree.approvals rows := by
  induction rows generalizing place with
  | nil => rfl
  | cons row rest ih =>
      have later := ih fun index => place (index + 1)
      have label : (row.view (place 0)).approved = (PoolTree.approval row).isSome := by
        unfold PoolTree.approval PoolLeafView.approved PoolLeaf.view
        by_cases deposit : row.kind = .deposit <;> simp [deposit]
      rw [List.mapIdx_cons, List.countP_cons, later, label]
      unfold PoolTree.approvals PoolTree.labels
      cases approved : PoolTree.approval row with
      | none => rw [List.filterMap_cons_none approved]; rfl
      | some label => rw [List.filterMap_cons_some approved]; rfl

/-- The pool's own root after a block is that of the tree over the leaves so far. -/
def RootsAreTrees {T : Type} (imt : LeanImt T) (startBlock : Nat) (leaves : List PoolLeaf)
    (contracts : PoolContracts) : Prop :=
  ∀ block tree, leavesUpTo leaves startBlock (some block) ≠ [] →
    PoolTree.buildStateTree imt (leavesUpTo leaves startBlock (some block)) = .ok tree →
      imt.root tree = contracts.currentRoot block

/-- The commitments of mirrored leaves are numbers. -/
theorem buildStateTree_returns {T : Type} (imt : LeanImt T) (startBlock : Nat)
    (cursor : Option Nat) :
    ∃ tree, PoolTree.buildStateTree imt (leavesUpTo (leavesOf logs) startBlock cursor) =
      .ok tree := by
  have inserted : ∀ (rows : List PoolLeaf) (tree : T), (∀ row ∈ rows, row ∈ leavesOf logs) →
      ∃ grown, PoolTree.insertCommitments imt tree (rows.map PoolLeaf.commitment) = .ok grown := by
    intro rows
    induction rows with
    | nil => exact fun tree _ => ⟨tree, rfl⟩
    | cons row rest ih =>
        intro tree among
        obtain ⟨log, -, mirrored⟩ := mem_leavesOf_iff.mp (among row List.mem_cons_self)
        have read : ∃ value, bigInt row.commitment = .ok value := by
          cases mirrored with
          | deposit | change => exact ⟨_, bigInt_decimalString _⟩
        obtain ⟨value, read⟩ := read
        obtain ⟨grown, built⟩ := ih (imt.insert tree value) fun other member =>
          among other (List.mem_cons_of_mem _ member)
        refine ⟨grown, ?_⟩
        rw [List.map_cons, PoolTree.insertCommitments, read]
        exact built
  exact inserted _ _ fun row member => BlockScan.mem_upTo member

/-- The association root that is served is that of the labels, when there is one. -/
theorem root_of_aspRootText {T : Type} {imt : LeanImt T} {leaves : List PoolLeaf} {text : JsString}
    (readable : PoolTree.Readable leaves) (some : 0 < PoolTree.approvals leaves)
    (computed : PoolTree.aspRootText imt leaves = .ok text) :
    bigInt text = .ok (PoolTree.rootOf imt leaves) := by
  have labelled : PoolTree.labels leaves ≠ [] := List.ne_nil_of_length_pos some
  unfold PoolTree.aspRootText at computed
  rw [PoolTree.buildAspTree_eq readable] at computed
  change Except.ok (if PoolTree.labels leaves = [] then _ else _) = _ at computed
  rw [if_neg labelled, Except.ok.injEq] at computed
  rw [← computed, bigInt_ofInt]
  rfl

/-- **What was served lasts.** Whatever the indexer and other requests do while a request
is served and after it: the scope is the pool's; the leaves that were served are the first
of those served later, each in its place; the tree over their commitments has the root the
pool had after a final block; and a proof against the association root that was served is
recognised while fewer than 32 labelled deposits have been added. -/
theorem served_state_lasts {T : Type} {imt : LeanImt T} {lib : RelayLibraries}
    {state : PoolStateConfig} {before after : PoolServiceWorld} {later : PoolWorld}
    {heads between more : List Nat} {view : PoolStateView} (positive : 1 ≤ cfg.batchBlocks)
    (chain : ChainLeaves (leavesOf logs))
    (trees : ∀ values, lib.imtRoot values = imt.root (PoolTree.treeOf imt imt.empty values))
    (roots : RootsAreTrees imt cfg.startBlock (leavesOf logs) contracts)
    (enabled : state.isEnabled = true) (started : PoolRun cfg logs .initial heads before.pool)
    (kept : ScopeKept contracts before)
    (path : Reaches (ServesPoolState cfg logs contracts) (PoolService.state state imt) before
      between (.done (.ok view)) after)
    (onward : PoolRun cfg logs after.pool more later) :
    view.scope = decimalString contracts.scope ∧
      (view.leaves ≠ [] → ∃ head ∈ heads ++ between, ∃ block ≤ safeHeadOf cfg.confirmations head,
        ∃ tree, PoolTree.insertCommitments imt imt.empty
            (view.leaves.map PoolLeafView.commitment) = .ok tree ∧
          imt.root tree = contracts.currentRoot block) ∧
      ∃ newer, PoolService.stateLeaves later.store = view.leaves ++ newer ∧
        (0 < view.leaves.countP PoolLeafView.approved → newer.countP PoolLeafView.approved < 32 →
          ∀ signals root, bigInt view.aspRoot = .ok root →
            signals[PoolService.aspRootSignal]? = some root →
            ∃ known, PoolService.aspRootHistory lib (PoolService.leaves later.store) = .ok known ∧
              PoolService.recognised known signals = .ok root) := by
  obtain ⟨scope, -, moment, first, second, reached, left, rfl, served, computed⟩ :=
    state_returned enabled kept path
  have toMoment := started.trans reached
  have fromMoment := left.trans onward
  obtain ⟨mirrored, bounded⟩ := toMoment.mirrored positive chain
  obtain ⟨newer, grown⟩ := toMoment.leaves_append positive chain fromMoment
  have rows : PoolService.leaves moment.store = _ := mirrored.leaves_eq
  have after := ((toMoment.trans fromMoment).mirrored positive chain).1.leaves_eq
  refine ⟨scope, fun some => ?_, newer.mapIdx fun index row =>
    row.view (index + (PoolService.leaves moment.store).length), ?_, ?_⟩
  · have commitments : view.leaves.map PoolLeafView.commitment =
        (leavesUpTo (leavesOf logs) cfg.startBlock moment.store.cursor).map PoolLeaf.commitment := by
      rw [served, PoolService.stateLeaves, rows]
      exact List.ext_getElem (by simp) fun index inViews inRows => by simp [PoolLeaf.view]
    have nonempty : leavesUpTo (leavesOf logs) cfg.startBlock moment.store.cursor ≠ [] := by
      rintro none
      rw [served, PoolService.stateLeaves, rows, none] at some
      exact some rfl
    cases cursor : moment.store.cursor with
    | none =>
        rw [cursor] at nonempty
        exact absurd rfl nonempty
    | some block =>
        rw [cursor] at commitments nonempty
        obtain ⟨head, member, below⟩ := bounded block cursor
        obtain ⟨tree, built⟩ : ∃ tree, PoolTree.buildStateTree imt
            (leavesUpTo (leavesOf logs) cfg.startBlock (.some block)) = .ok tree :=
          buildStateTree_returns imt cfg.startBlock (.some block)
        refine ⟨head, ?_, block, below, tree, ?_, roots block tree nonempty built⟩
        · rw [← List.append_assoc]
          exact List.mem_append_left _ member
        · rw [commitments]
          exact built
  · rw [served, PoolService.stateLeaves, grown, List.mapIdx_append]
    rfl
  · rw [served, PoolService.stateLeaves, countP_approved _ fun index => index, countP_approved]
    intro some recent signals root read signalled
    have readableUpTo : ∀ cursor,
        PoolTree.Readable (leavesUpTo (leavesOf logs) cfg.startBlock cursor) :=
      readable_leavesUpTo cfg.startBlock
    have readable := readableUpTo moment.store.cursor
    have readableLater := readableUpTo later.store.cursor
    rw [← rows] at readable
    rw [← after] at readableLater
    rw [root_of_aspRootText readable some computed, Except.ok.injEq] at read
    refine ⟨_, by rw [PoolTree.consulted_eq trees readableLater,
      PoolTree.aspRootHistory_eq readableLater], ?_⟩
    rw [PoolTree.recognised_iff]
    refine ⟨signalled, ?_⟩
    rw [← read, grown]
    exact PoolTree.consulted_of_recent some recent

/-! ## Computed requests -/

/-- The services when nothing fails, nothing else runs and the node answers for one block. -/
def servePoolState (contracts : PoolContracts) (block : Nat) :
    Async.Responder PoolStateCall.Answer RelayError PoolServiceWorld
  | .findLeaves, world => (.ok (PoolService.leaves world.pool.store), world)
  | .cachedScope, world => (.ok world.cachedScope, world)
  | .readUint _ .scope, world => (.ok contracts.scope, world)
  | .readUint _ .currentRoot, world => (.ok (contracts.currentRoot block), world)
  | .readUint _ .latestRoot, world => (.ok 0, world)
  | .cacheScope scope, world => (.ok (), { world with cachedScope := some scope })
  | .isSynced, world => (.ok world.pool.caughtUp, world)

theorem serves_servePoolState (block : Nat) (call : PoolStateCall) (world : PoolServiceWorld) :
    ServesPoolState cfg logs contracts call world (servePoolState contracts block call world).1 []
      (servePoolState contracts block call world).2 := by
  have still : PoolPasses cfg logs contracts world [] world := ⟨.here, .inl rfl⟩
  cases call with
  | findLeaves => exact .leaves still
  | cachedScope => exact .cachedScope still
  | readUint address fn =>
      cases fn with
      | scope => exact .scope still address
      | currentRoot => exact .currentRoot still address block
      | latestRoot => exact .latestRoot still address 0
  | cacheScope scope => exact .cacheScope still scope
  | isSynced => exact .isSynced still

namespace SamplePool

/-- Deposits under labels 1 and 2, in blocks 6 and 10. -/
def poolLogs : List RawPoolLog :=
  [⟨.deposited 111 1 9 55, 6, JsString.ascii "0x6a", 2⟩,
    ⟨.deposited 222 2 9 56, 10, JsString.ascii "0x7a", 0⟩]

/-- Roots are natural numbers. -/
def libraries : RelayLibraries :=
  { SampleRelay.libraries with
    imtRoot := fun values => (SampleRelay.libraries.imtRoot values).toNat }

/-- A tree that keeps its leaves. -/
def imt : LeanImt (List Int) :=
  ⟨[], fun values value => values ++ [value], libraries.imtRoot⟩

def deployed : PoolContracts where
  scope := 77
  currentRoot block :=
    match PoolTree.buildStateTree imt
        (leavesUpTo (leavesOf poolLogs) Sample.pool.startBlock (some block)) with
    | .ok tree => (SampleRelay.libraries.imtRoot tree).toNat
    | .error _ => 0

def config : PoolStateConfig where
  isEnabled := true
  chainId := 10143
  entrypoint := some (SampleRelay.address 'b')
  privacyPool := some (SampleRelay.address 'd')
  usdc := some (SampleRelay.address 'c')

/-- One tick that nothing stops, under a head. -/
def ticked (head : Nat) (world : PoolWorld) : PoolWorld :=
  (Async.stopped (servePool poolLogs head) 40 (PoolIndexerService.tick Sample.pool) world).2

theorem ran (head : Nat) {start world : PoolWorld} {heads : List Nat}
    (run : PoolRun Sample.pool poolLogs start heads world) :
    ∃ heads, PoolRun Sample.pool poolLogs start heads (ticked head world) :=
  ⟨_, run.tick (Async.reaches_recorded (servePool poolLogs head)
    (serves_servePool Sample.pool.confirmations head) 40 (PoolIndexerService.tick Sample.pool)
    world)⟩

/-- The request that is served when block 8 is the last that is mirrored. -/
def served : PoolReading PoolStateView × PoolServiceWorld :=
  Async.stopped (servePoolState deployed 9) 20 (PoolService.state config imt)
    ⟨ticked 9 .initial, none⟩

theorem treeOf_imt (values tree : List Int) : PoolTree.treeOf imt tree values = tree ++ values := by
  induction values generalizing tree with
  | nil => exact (List.append_nil tree).symm
  | cons value rest ih => exact (ih _).trans (List.append_cons tree value rest).symm

end SamplePool

open SamplePool in
/-- A proof against the root of the first deposit is recognised when the second has been
mirrored. -/
theorem served_state_lasts_twoDeposits :
    ∃ view newer, served.1 = .done (.ok view) ∧ view.aspRoot = JsString.ascii "1" ∧
      PoolService.stateLeaves (ticked 20 served.2.pool).store = view.leaves ++ newer ∧
      ∀ signals : List Int, signals[PoolService.aspRootSignal]? = some 1 →
        ∃ known, PoolService.aspRootHistory libraries
            (PoolService.leaves (ticked 20 served.2.pool).store) = .ok known ∧
          PoolService.recognised known signals = .ok 1 := by
  have chain : ChainLeaves (leavesOf poolLogs) := by
    refine ⟨?_, by decide +kernel⟩
    unfold BlockScan.Distinct
    decide +kernel
  have roots : RootsAreTrees imt Sample.pool.startBlock (leavesOf poolLogs) deployed := by
    intro block tree _ built
    simp only [deployed, built]
    rfl
  have trees : ∀ values, libraries.imtRoot values =
      imt.root (PoolTree.treeOf imt imt.empty values) :=
    fun values => congrArg _ (treeOf_imt values []).symm
  have facts : (served.1.outcome?).map (fun result => result.toOption.map fun view =>
      (view.aspRoot, view.leaves.countP PoolLeafView.approved, view.leaves.length)) =
        some (some (JsString.ascii "1", 1, 1)) := by decide +kernel
  obtain ⟨result, finished, returned⟩ := Option.map_eq_some_iff.mp facts
  obtain ⟨view, isOk, shown⟩ := Option.map_eq_some_iff.mp returned
  simp only [Prod.mk.injEq] at shown
  obtain ⟨aspRoot, approved, length⟩ := shown
  cases result with
  | error thrown => cases isOk
  | ok value =>
      obtain rfl := Option.some.inj isOk
      have done := Async.eq_done_of_outcome? finished
      have path : Reaches (ServesPoolState Sample.pool poolLogs deployed)
          (PoolService.state config imt) ⟨ticked 9 .initial, none⟩ _ served.1 served.2 :=
        Async.reaches_recorded (servePoolState deployed 9) (serves_servePoolState 9) 20
          (PoolService.state config imt) ⟨ticked 9 .initial, none⟩
      rw [done] at path
      obtain ⟨_, before⟩ := ran 9 .here
      obtain ⟨_, onward⟩ : ∃ heads, PoolRun Sample.pool poolLogs served.2.pool heads
          (ticked 20 served.2.pool) := ran 20 .here
      obtain ⟨-, -, newer, shown, lasts⟩ := served_state_lasts (by decide) chain trees roots rfl
        before (.inl rfl) path onward
      have total : (PoolService.stateLeaves (ticked 20 served.2.pool).store).countP
          PoolLeafView.approved = 2 := by decide +kernel
      rw [shown, List.countP_append, approved] at total
      refine ⟨value, newer, done, aspRoot, shown, fun signals signalled => ?_⟩
      refine lasts (by omega) (by omega) signals 1 ?_ signalled
      rw [aspRoot]
      decide +kernel

end Numera
