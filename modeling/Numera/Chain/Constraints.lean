import Numera.Chain.Calls

/-! # What the columns hold

Every row fits its columns, whatever calls have been made (`Database.Reached.wellFormed`).
Against services that are up, each call of the processor is refused or answered, and the
condition under which it is not refused is found here call by call.
-/

namespace Numera

open Async (Returns returns_bind)

/-! ## Rows that fit -/

/-- The copy of a draft fits the columns of the market that adopts it. -/
def MarketMetadataDraft.storable (draft : MarketMetadataDraft) : Bool :=
  storableText draft.title && storableText draft.description &&
    storableText draft.resolutionRules && draft.imageUrl.all storableText &&
    draft.outcomeLabels.all storableText

/-- The rows that the processor reads again fit their columns. -/
structure Database.WellFormed (db : Database) : Prop where
  drafts : ∀ hash draft, db.drafts.find? hash = some draft → draft.storable = true
  markets : ∀ key row, db.markets.find? key = some row → row.storable = true
  positions : ∀ key row, db.positions.find? key = some row → row.storable = true
  resolutions : ∀ key row, db.resolutions.find? key = some row → row.storable = true

/-- The databases that calls lead to, and operators who store drafts. -/
inductive Database.Reached : Database → Prop where
  | empty : Reached .empty
  | called {db call answer later} (before : Reached db)
      (performed : Performs call db answer later) : Reached later
  | drafted {db} (before : Reached db) (hash : JsString) (draft : MarketMetadataDraft)
      (fits : draft.storable = true) :
      Reached { db with drafts := db.drafts.upsert hash draft fun _ => draft }

theorem unlessFits_eq_none {fits : Bool} : Call.unlessFits fits = none ↔ fits = true := by
  cases fits <;> simp [Call.unlessFits]

section Tables

variable {κ ρ : Type} [DecidableEq κ] {fits : ρ → Prop} {table : Table κ ρ} {key : κ}
  (all : ∀ key row, table.find? key = some row → fits row)
include all

theorem fits_upsert {create : ρ} {change : ρ → ρ} (created : fits create)
    (changed : ∀ row, table.find? key = some row → fits (change row)) :
    ∀ other row, (table.upsert key create change).find? other = some row → fits row := by
  intro other row found
  rw [Table.find?_upsert] at found
  split at found
  · obtain rfl := Option.some.inj found
    cases there : table.find? key with
    | none => exact created
    | some old => exact changed old there
  · exact all other row found

theorem fits_insertNew {create : ρ} (created : fits create) :
    ∀ other row, (table.insertNew key create).find? other = some row → fits row :=
  fits_upsert all created fun row there => all key row there

theorem fits_modifyWhere {selected : κ → Bool} {change : ρ → ρ}
    (changed : ∀ other row, selected other = true → table.find? other = some row →
      fits (change row)) :
    ∀ other row, (table.modifyWhere selected change).find? other = some row → fits row := by
  intro other row found
  rw [Table.find?_modifyWhere] at found
  obtain ⟨old, there, rfl⟩ := Option.map_eq_some_iff.mp found
  split
  · rename_i chosen
    exact changed other old chosen there
  · exact all other old there

theorem fits_modify {change : ρ → ρ}
    (changed : ∀ row, table.find? key = some row → fits (change row)) :
    ∀ other row, (table.modify key change).find? other = some row → fits row := by
  refine fits_modifyWhere all fun other row chosen there => ?_
  obtain rfl := of_decide_eq_true chosen
  exact changed row there

end Tables

/-- Values that fit their columns leave a row that does. -/
theorem ResolutionUpdate.storable_apply {data : ResolutionUpdate} {row : ResolutionProposal}
    (fits : data.storable = true) (before : row.storable = true) :
    (data.apply row).storable = true := by
  simp only [ResolutionUpdate.storable, ResolutionProposal.storable, ResolutionUpdate.apply,
    Bool.and_eq_true] at fits before ⊢
  have nullable {τ : Type} {check : τ → Bool} {value : Option (Option τ)} {old : Option τ}
      (given : value.join.all check = true) (held : old.all check = true) :
      (value.getD old).all check = true := by
    cases value with
    | none => exact held
    | some value => exact given
  have plain {τ : Type} {check : τ → Bool} {value : Option τ} {old : τ}
      (given : value.all check = true) (held : check old = true) :
      check (value.getD old) = true := by
    cases value with
    | none => exact held
    | some value => exact given
  obtain ⟨⟨⟨⟨⟨⟨⟨⟨⟨a, b⟩, c⟩, d⟩, e⟩, f⟩, g⟩, h⟩, i⟩, j⟩ := fits
  obtain ⟨⟨⟨⟨⟨⟨⟨⟨⟨a', b'⟩, c'⟩, d'⟩, e'⟩, f'⟩, g'⟩, h'⟩, i'⟩, j'⟩ := before
  exact ⟨⟨⟨⟨⟨⟨⟨⟨⟨nullable a a', plain b b'⟩, nullable c c'⟩, nullable d d'⟩, plain e e'⟩,
    nullable f f'⟩, nullable g g'⟩, plain h h'⟩, plain i i'⟩, nullable j j'⟩

/-- What a call that is not refused leaves fits. -/
theorem Database.WellFormed.effect {db : Database} (wellFormed : db.WellFormed) {outside : Outside}
    {call : Call} (admitted : call.refusal outside db = none) :
    (call.effect db).WellFormed := by
  obtain ⟨drafts, markets, positions, resolutions⟩ := wellFormed
  cases call with
  | adoptDraft hash ref =>
      exact ⟨fits_modify drafts fun draft there => drafts hash draft there, markets, positions,
        resolutions⟩
  | upsertMarket key create =>
      have fits := unlessFits_eq_none.mp admitted
      refine ⟨drafts, ?_, positions, resolutions⟩
      exact fits_insertNew markets (Bool.and_eq_true_iff.mp fits).2
  | updateMarket key data =>
      refine ⟨drafts, fits_modify markets fun row there => ?_, positions, resolutions⟩
      simp only [Call.refusal, there] at admitted
      split at admitted
      · exact unlessFits_eq_none.mp admitted
      · cases admitted
  | updateOutcome key index data =>
      refine ⟨drafts, fits_modify markets fun row there => ?_, positions, resolutions⟩
      simp only [Call.refusal, there] at admitted
      split at admitted
      · exact unlessFits_eq_none.mp admitted
      · cases admitted
  | upsertPosition key create update =>
      have fits := unlessFits_eq_none.mp admitted
      simp only [Bool.and_eq_true] at fits
      obtain ⟨⟨-, created⟩, changed⟩ := fits
      refine ⟨drafts, markets, fits_upsert positions created fun row there => ?_, resolutions⟩
      rw [there] at changed
      exact changed
  | updatePositions ref account data =>
      have fits := List.all_eq_true.mp (unlessFits_eq_none.mp admitted)
      refine ⟨drafts, markets, fits_modifyWhere positions fun key row held there => ?_, resolutions⟩
      have present : (key, data.apply row) ∈ (db.positions.modifyWhere
          (Database.isHeldBy ref account) data.apply).rows := by
        rw [Table.mem_rows_iff, Table.find?_modifyWhere, there]
        simp [held]
      simpa [held] using fits _ present
  | upsertResolution key row =>
      have fits := (Bool.and_eq_true_iff.mp (unlessFits_eq_none.mp admitted)).2
      exact ⟨drafts, markets, positions, fits_upsert resolutions fits fun _ _ => fits⟩
  | updateResolutions key data =>
      have fits := (Bool.and_eq_true_iff.mp (unlessFits_eq_none.mp admitted)).2
      exact ⟨drafts, markets, positions, fits_modify resolutions fun row there =>
        ResolutionUpdate.storable_apply fits (resolutions key row there)⟩
  | _ => exact ⟨drafts, markets, positions, resolutions⟩

/-- **Every row fits its columns.** -/
theorem Database.Reached.wellFormed {db : Database} (reached : db.Reached) : db.WellFormed := by
  induction reached with
  | empty =>
      have vacant {κ ρ : Type} [DecidableEq κ] (fits : ρ → Prop) (key : κ) (row : ρ)
          (found : (Table.empty : Table κ ρ).find? key = some row) : fits row :=
        (Option.some_ne_none row (found.symm.trans (Table.find?_empty key))).elim
      exact ⟨vacant _, vacant _, vacant _, vacant _⟩
  | called _ performed ih =>
      rcases performs_cases performed with ⟨failure, -, rfl⟩ | ⟨outside, admitted, -, rfl⟩
      · exact ih
      · exact ih.effect admitted
  | drafted _ hash draft fits ih =>
      exact ⟨fits_upsert ih.drafts fits fun _ _ => fits, ih.markets, ih.positions, ih.resolutions⟩

/-! ## Services that are up -/

/-- The database, Redis and the node answer every call. -/
def serving (outside : Call → Outside) : Async.Responder Call.Answer Failure Database :=
  fun call db => respond (outside call) call db

section Serving

variable {outside : Call → Outside} {db : Database} {α : Type}

theorem returns_await {call : Call} {post : call.Answer → Database → Prop} :
    Returns (serving outside) (await call) db post ↔
      call.refusal (outside call) db = none ∧
        post (call.answer (outside call) db) (call.effect db) := by
  unfold await Async.perform
  rw [Async.returns_call, serving, respond_eq]
  cases refused : call.refusal (outside call) db <;> simp

/-- A call, and what follows its answer. -/
theorem returns_await_bind {call : Call} {rest : call.Answer → Chain α}
    {post : α → Database → Prop} :
    Returns (serving outside) (await call >>= rest) db post ↔
      call.refusal (outside call) db = none ∧
        Returns (serving outside) (rest (call.answer (outside call) db)) (call.effect db) post := by
  rw [returns_bind, returns_await]

end Serving

end Numera
