import Numera.Relay.Allowance
import Numera.Relay.AssociationRoots

/-! # Requests that are answered

A request is to end with a hash or with a refusal. The validators admit numbers of 78 digits
where the contracts have 256 bits, addresses whatever their checksum, and the points and parts
of a proof that they do not look into. Where a body encodes, every part of it that is read
outside a guarded block, and nothing else, decides whether the request is answered
(`answered_iff`).
-/

namespace JsString

/-- `/^[0-9]{1,78}$/`. -/
def isUint (text : JsString) : Bool :=
  1 ≤ text.length && text.length ≤ 78 && text.all isDigit

/-- `0x` and some hexadecimal digits. -/
def isHex : JsString → Bool
  | 48 :: 120 :: digits => digits.all isHexDigit
  | _ => false

/-- `/^0x([0-9a-fA-F]{2})*$/`. -/
def isBytes (text : JsString) : Bool := isHex text && text.length % 2 = 0

/-- `/^0x[0-9a-fA-F]{64}$/`. -/
def isBytes32 (text : JsString) : Bool := isHex text && text.length = 66

/-- A signature: 65 bytes. -/
def isSignature (text : JsString) : Bool := isHex text && text.length = 132

end JsString

namespace Numera

open Async (Ends Environment Reaches)

/-! ## Validated bodies -/

def ForwardRequestDto.valid (dto : ForwardRequestDto) : Bool :=
  dto.from.isAddress && dto.to.isAddress && dto.value.isUint && dto.gas.isUint &&
    dto.deadline ≤ 281474976710655 && dto.data.isBytes && dto.signature.isSignature

def PermitDto.valid (dto : PermitDto) : Bool :=
  dto.owner.isAddress && dto.value.isUint && dto.deadline.isUint && 27 ≤ dto.v && dto.v ≤ 28 &&
    dto.r.isBytes32 && dto.s.isBytes32

def RelayRequestDto.valid (dto : RelayRequestDto) : Bool :=
  dto.request.valid && dto.permit.all PermitDto.valid

def PermitRequestDto.valid (dto : PermitRequestDto) : Bool :=
  dto.token.isAddress && dto.spender.isAddress && dto.toPermitDto.valid

def WithdrawalDto.valid (dto : WithdrawalDto) : Bool :=
  dto.processooor.isAddress && dto.data.isBytes

/-- The entries of `pB` are not looked at. -/
def WithdrawProofDto.valid (dto : WithdrawProofDto) : Bool :=
  dto.pA.length = 2 && dto.pA.all JsString.isUint && dto.pB.length = 2 &&
    dto.pC.length = 2 && dto.pC.all JsString.isUint &&
    dto.pubSignals.length = 8 && dto.pubSignals.all JsString.isUint

def PoolWithdrawDto.valid (dto : PoolWithdrawDto) : Bool :=
  dto.withdrawal.all WithdrawalDto.valid && dto.proof.all WithdrawProofDto.valid

def ShieldRequestDto.valid (dto : ShieldRequestDto) : Bool :=
  dto.owner.isAddress && dto.value.isUint && dto.precommitment.isUint && dto.deadline.isUint

def ShieldPermitDto.valid (dto : ShieldPermitDto) : Bool :=
  dto.deadline.all JsString.isUint && dto.v ≤ 255 && dto.r.isBytes32 && dto.s.isBytes32

def PoolShieldDto.valid (dto : PoolShieldDto) : Bool :=
  dto.request.all ShieldRequestDto.valid && dto.signature.isSignature &&
    dto.permit.all ShieldPermitDto.valid

/-- A request of a caller whose body passes its validators. -/
def RelayRequest.valid : RelayRequest → Bool
  | submit payload | submitResolution payload => payload.valid
  | submitPermit permit => permit.valid
  | sendFromRelayer _ _ => false
  | withdraw dto => dto.valid
  | shield dto => dto.valid

/-! ## What can be encoded -/

/-- A number of an unsigned type of so many bits. -/
def fitsUint (bits : Nat) (value : Int) : Bool := 0 ≤ value && value < 2 ^ bits

/-- Hexadecimal text of 32 bytes. -/
def fitsBytes32 (text : JsString) : Bool := (text.length - 1) / 2 = 32

section Fits

variable (isAddress : JsString → Bool)

def ContractRequest.fits (request : ContractRequest) : Bool :=
  isAddress request.from && isAddress request.to && fitsUint 256 request.value &&
    fitsUint 256 request.gas && fitsUint 48 request.deadline

def ShieldRequest.fits (request : ShieldRequest) : Bool :=
  isAddress request.owner && fitsUint 256 request.value && fitsUint 256 request.precommitment &&
    fitsUint 256 request.deadline

def fitsPoint (point : List Int) : Bool := point.length = 2 && point.all (fitsUint 256)

def WithdrawProof.fits (proof : WithdrawProof) : Bool :=
  fitsPoint proof.pA && (proof.pB.length = 2 && proof.pB.all fitsPoint) && fitsPoint proof.pC &&
    (proof.pubSignals.length = 8 && proof.pubSignals.all (fitsUint 256))

/-- The arguments of a call are of the types of its function. -/
def ContractCall.fits : ContractCall → Bool
  | execute request => request.fits isAddress
  | executeWithPermit owner value deadline v r s request =>
      isAddress owner && fitsUint 256 value && fitsUint 256 deadline && fitsUint 8 v &&
        fitsBytes32 r && fitsBytes32 s && request.fits isAddress
  | permit owner spender value deadline v r s =>
      isAddress owner && isAddress spender && fitsUint 256 value && fitsUint 256 deadline &&
        fitsUint 8 v && fitsBytes32 r && fitsBytes32 s
  | updateRoot root => fitsUint 256 root
  | relay processooor _ proof => isAddress processooor && proof.fits
  | depositFor request _ => request.fits isAddress
  | depositForWithPermit request _ deadline v r s =>
      request.fits isAddress && fitsUint 256 deadline && fitsUint 8 v && fitsBytes32 r &&
        fitsBytes32 s
  | finalize market marketId => isAddress market && fitsUint 256 marketId

/-- The encoder throws for what is not of the types of the function, where `isAddress` says what it
takes for an address. -/
def RelayLibraries.Encodes (lib : RelayLibraries) : Prop :=
  ∀ call, lib.encodes call = call.fits isAddress

end Fits

/-! ## Normal answers -/

/-- A refusal of one of the services. -/
def RelayError.isRefusal : RelayError → Bool
  | relayRejected _ _ | poolRejected _ _ => true
  | _ => false

/-- The answers when nothing fails. A node may revert a simulation, have no fees or no receipt in
time, and reject a request, and is not asked about one that cannot be encoded; the labels of the
leaves are numbers. -/
def AnswersNormally (lib : RelayLibraries) (wiring : Wiring) :
    (call : RelayCall) → Except RelayError call.Answer → Prop
  | .wiring, answer => answer = .ok wiring
  | .leaves, answer => ∃ rows, answer = .ok rows ∧ PoolTree.Readable rows
  | .incr _, answer => ∃ count, answer = .ok (count + 1)
  | .verifyRelayable _ request, answer =>
      ∀ valid, answer = .ok valid → lib.encodes (.execute request) = true
  | .call _ _, _ | .estimateGas _ _, _ | .estimateFeesPerGas, _ | .waitForTransactionReceipt _, _ =>
      True
  | _, answer => ∃ value, answer = .ok value

/-- Whatever other requests do meanwhile, where nothing fails. -/
def normally (lib : RelayLibraries) (wiring : Wiring) :
    Environment RelayCall.Answer RelayError Unit RelayCall :=
  fun call _ answer record _ => record = [call] ∧ AnswersNormally lib wiring call answer

/-- A computation is answered: it returns, or it throws a refusal. -/
def Answered {α : Type} (lib : RelayLibraries) (wiring : Wiring) (task : Relay α) : Prop :=
  Ends (normally lib wiring) (fun outcome _ => ∀ error, outcome = .error error → error.isRefusal)
    task ()

/-! ## The parts of a body that decide -/

/-- Text is read as a number of 256 bits. -/
def readsUint (text : JsString) : Bool := (JsString.parseBigInt text).any (fitsUint 256)

/-- The first two entries of a row are read so. -/
def readsPoint (row : List (Option JsString)) : Bool :=
  (row[0]?.join).any readsUint && (row[1]?.join).any readsUint

namespace RelayRequest

variable (lib : RelayLibraries) (cfg : RelayConfig) (wiring : Wiring) (isAddress : JsString → Bool)

/-- The permit of a body that passes the checks before can be encoded, if its request can be. -/
def ForwardEncodes (request : RelayRequest) (payload : RelayRequestDto) : Prop :=
  request.counted lib cfg wiring → 0 < cfg.accountLimit → 0 < cfg.dailyCapWei →
    isAddress payload.request.from && isAddress payload.request.to &&
        readsUint payload.request.value && readsUint payload.request.gas →
      ∀ permit, payload.permit = some permit →
        isAddress permit.owner && readsUint permit.value && readsUint permit.deadline

/-- The association root of a proof is one of a pool with some leaves. -/
def KnownRoot (proof : WithdrawProofDto) : Prop :=
  ∃ rows known root, PoolTree.Readable rows ∧ PoolService.aspRootHistory lib rows = .ok known ∧
    (proof.pubSignals[PoolService.aspRootSignal]?).bind JsString.parseBigInt = some root ∧
    root ∈ known

/-- The numbers of a proof are read as numbers of 256 bits. -/
def proofEncodes (proof : WithdrawProofDto) : Bool :=
  isAddress cfg.entrypoint && readsPoint (proof.pA.map some) &&
    readsPoint ((proof.pB[0]?).getD []) && readsPoint ((proof.pB[1]?).getD []) &&
    readsPoint (proof.pC.map some) && proof.pubSignals.all readsUint

/-- The part of a request that is read and encoded outside a guarded block can be. -/
def Encodes : RelayRequest → Prop
  | submit payload =>
      (cfg.enabled && wiring.connected → wiring.engine.isSome) ∧
        (submit payload).ForwardEncodes lib cfg wiring isAddress payload
  | submitResolution payload => (submitResolution payload).ForwardEncodes lib cfg wiring isAddress payload
  | submitPermit permit =>
      (submitPermit permit).counted lib cfg wiring → 0 < cfg.accountLimit → 0 < cfg.dailyCapWei →
        isAddress permit.owner && isAddress permit.spender && readsUint permit.value &&
          readsUint permit.deadline
  | sendFromRelayer _ _ => True
  | withdraw dto =>
      cfg.poolEnabled → ∃ withdrawal, dto.withdrawal = some withdrawal ∧
        (withdrawal.processooor.toLowerCase = cfg.entrypoint.toLowerCase →
          ∃ proof, dto.proof = some proof ∧ (KnownRoot lib proof → proofEncodes cfg isAddress proof))
  | shield dto =>
      cfg.poolEnabled → ∃ request, dto.request = some request ∧
        (JsString.parseBigInt request.value ≠ some 0 →
          (isAddress request.owner && readsUint request.value && readsUint request.precommitment &&
              readsUint request.deadline) ∧
            ∀ permit, dto.permit = some permit → permit.deadline.any readsUint)

end RelayRequest

/-! ## Answered parts -/

section Parts

variable {α β : Type} {lib : RelayLibraries} {cfg : RelayConfig} {wiring : Wiring}

namespace Answered

theorem returned (value : α) : Answered lib wiring (.done (.ok value)) := by
  intro error same
  cases same

theorem refused {error : RelayError} (refusal : error.isRefusal) :
    Answered lib wiring (.done (.error error) : Relay α) := by
  intro other same
  rw [← Except.error.inj same]
  exact refusal

/-- What is thrown besides is no answer. -/
theorem not_thrown (error : ThrownError) :
    ¬ Answered lib wiring (.done (.error (.thrown error)) : Relay α) :=
  fun answered => Bool.false_ne_true (answered _ rfl)

theorem bind {first : Relay β} {rest : β → Relay α} (body : Answered lib wiring first)
    (follows : ∀ value, Answered lib wiring (rest value)) : Answered lib wiring (first >>= rest) := by
  refine Ends.bind (body.mono fun outcome final answered => ?_)
  cases outcome with
  | ok value => exact follows value
  | error thrown =>
      intro error same
      cases same
      exact answered _ rfl

/-- What is caught is answered when its handler is. -/
theorem caught {task : Relay α} {handler : RelayError → Relay α}
    (handled : ∀ error, Answered lib wiring (handler error)) :
    Answered lib wiring (tryCatch task handler) := by
  refine Ends.tryCatch (Ends.of_forall fun outcome final => ?_)
  cases outcome with
  | ok value =>
      intro error same
      cases same
  | error thrown => exact handled thrown

/-- A call that is answered with a value. -/
theorem perform {call : RelayCall}
    (answers : ∀ answer, AnswersNormally lib wiring call answer → ∃ value, answer = .ok value) :
    Answered lib wiring call.request := by
  refine Ends.perform fun answer record later normal error same => ?_
  obtain ⟨value, rfl⟩ := answers answer normal.2
  cases same

/-- A call whose answer is never missing. -/
theorem performed {call : RelayCall} {answer : Except RelayError call.Answer}
    (normal : AnswersNormally lib wiring call answer) :
    normally lib wiring call () answer [call] () := ⟨rfl, normal⟩

/-- The result of a job is passed on when the next one may begin. -/
theorem settled_iff (chain : Chained) (fn : Relay α) :
    Answered lib wiring (do
      let result ← settled fn
      (RelayCall.leave chain).request
      Async.done result) ↔ Answered lib wiring fn := by
  induction fn with
  | done outcome =>
      constructor
      · intro answered
        cases outcome with
        | ok value => exact returned value
        | error thrown => exact answered (.ok ()) _ () (performed ⟨(), rfl⟩)
      · intro answered
        cases outcome with
        | ok value =>
            change Answered lib wiring ((RelayCall.leave chain).request >>= fun _ => .done (.ok value))
            exact bind (perform fun _ normal => normal) fun _ => returned value
        | error thrown =>
            change Answered lib wiring
              ((RelayCall.leave chain).request >>= fun _ => .done (.error thrown))
            exact bind (perform fun _ normal => normal) fun _ => answered
  | call op next ih =>
      constructor
      · exact fun answered given record later normal => (ih given).mp (answered given record later normal)
      · exact fun answered given record later normal => (ih given).mpr (answered given record later normal)

/-- A job on a promise chain is answered when the job is. -/
theorem exclusively_iff (chain : Chained) (fn : Relay α) :
    Answered lib wiring (exclusively chain fn) ↔ Answered lib wiring fn := by
  constructor
  · intro answered
    refine (settled_iff chain fn).mp ?_
    exact (answered.continues (.step (performed ⟨0, rfl⟩) (.refl _ ()))).continues
      (.step (performed ⟨(), rfl⟩) (.refl _ ()))
  · intro answered
    refine bind (perform fun _ normal => normal) fun place => ?_
    exact bind (perform fun _ normal => normal) fun _ => (settled_iff chain fn).mpr answered

end Answered

/-- A computation that is always refused. -/
def Refused (lib : RelayLibraries) (wiring : Wiring) (task : Relay α) : Prop :=
  Ends (normally lib wiring) (fun outcome _ => ∃ error, outcome = .error error ∧ error.isRefusal)
    task ()

theorem Answered.refuses {first : Relay β} {rest : β → Relay α} (refused : Refused lib wiring first) :
    Answered lib wiring (first >>= rest) := by
  refine Ends.bind (refused.mono fun outcome final ended => ?_)
  obtain ⟨error, rfl, refusal⟩ := ended
  intro other same
  rw [← Except.error.inj same]
  exact refusal

theorem answered_enforceAccountRate (account : JsString) :
    Answered lib wiring (RelayService.enforceAccountRate cfg account) := by
  refine .bind (.perform ?_) fun count => .bind ?_ fun _ => ?_
  · rintro answer ⟨count, rfl⟩
    exact ⟨_, rfl⟩
  · split
    · exact .perform fun _ normal => normal
    · exact .returned ()
  · split
    · exact .refused rfl
    · exact .returned ()

theorem answered_enforceDailyCap : Answered lib wiring (RelayService.enforceDailyCap cfg) := by
  refine .bind (.bind (.bind (.perform fun _ normal => normal) fun _ => .returned _) fun _ =>
    .bind (.perform fun _ normal => normal) fun _ => .returned _) fun spent => ?_
  split
  · exact .refused rfl
  · exact .returned ()

theorem answered_recordSpend (wei : Nat) : Answered lib wiring (RelayService.recordSpend wei) :=
  .bind (.bind (.perform fun _ normal => normal) fun _ => .returned _) fun _ =>
    .bind (.perform fun _ normal => normal) fun _ => .perform fun _ normal => normal

theorem answered_gasFor (estimate : Nat) : Answered lib wiring (RelayService.gasFor cfg estimate) := by
  unfold RelayService.gasFor
  split
  · exact .refused rfl
  · exact .bind (.caught fun _ => .returned none) fun _ => .returned _

theorem answered_simulate {destination : JsString} {data : ContractCall}
    {refusal : RelayError → RelayError} (refuses : ∀ error, (refusal error).isRefusal) :
    Answered lib wiring (RelayService.simulate destination data refusal) :=
  .caught fun error => .refused (refuses error)

theorem answered_sendTransaction (destination : JsString) (data : ContractCall) (gas : Nat) :
    Answered lib wiring (RelayService.sendTransaction cfg destination data gas) :=
  .bind (answered_gasFor gas) fun _ => .bind (.perform fun _ normal => normal) fun hash =>
    .bind (answered_recordSpend _) fun _ => .returned hash

/-- A call that has been encoded is sent, or refused. -/
theorem answered_send {destination : JsString} {data : ContractCall}
    {refusal : RelayError → RelayError} (refuses : ∀ error, (refusal error).isRefusal) :
    Answered lib wiring (do
      let gas ← RelayService.simulate destination data refusal
      RelayService.sendTransaction cfg destination data gas) :=
  .bind (answered_simulate refuses) fun gas => answered_sendTransaction destination data gas

theorem answered_sendFromRelayer (destination : JsString) (data : ContractCall) :
    Answered lib wiring (RelayService.sendFromRelayer cfg destination data) := by
  refine .bind (.perform fun _ normal => ⟨_, normal⟩) fun wiring => ?_
  split
  · exact .refused rfl
  · refine .bind answered_enforceDailyCap fun _ =>
      (Answered.exclusively_iff _ _).mpr (answered_send fun error => ?_)
    unfold RelayService.relayerRefusal
    split <;> rfl

variable (lib wiring) in
/-- The checks of the caps can be passed. -/
theorem passes_enforceAccountRate (limited : 0 < cfg.accountLimit) (account : JsString) :
    ∃ records, Reaches (normally lib wiring) (RelayService.enforceAccountRate cfg account) () records
      (.done (.ok ())) () := by
  have last : Reaches (normally lib wiring) (if 1 > cfg.accountLimit then
      throw (.relayRejected .rateLimited
        "Too many trades from this account in a short time. Wait a moment and try again.")
      else return () : Relay Unit) () [] (.done (.ok ())) () := by
    rw [if_neg (Nat.not_lt.mpr limited)]
    exact .refl _ ()
  exact ⟨_, .step (Answered.performed ⟨0, rfl⟩) (.step (Answered.performed ⟨(), rfl⟩) last)⟩

variable (lib wiring) in
theorem passes_enforceDailyCap (capped : 0 < cfg.dailyCapWei) :
    ∃ records, Reaches (normally lib wiring) (RelayService.enforceDailyCap cfg) () records
      (.done (.ok ())) () := by
  have last : Reaches (normally lib wiring) (if 0 * RelayService.gweiWei ≥ cfg.dailyCapWei then
      throw (.relayRejected .unavailable
        "Gasless trading is paused for today. Nothing was spent from your balance.")
      else return () : Relay Unit) () [] (.done (.ok ())) () := by
    rw [if_neg (by omega)]
    exact .refl _ ()
  exact ⟨_, .step (Answered.performed ⟨0, rfl⟩) (.step (Answered.performed ⟨none, rfl⟩) last)⟩

/-- An allowance of nothing is never kept to. -/
theorem refused_enforceAccountRate (none : cfg.accountLimit = 0) (account : JsString) :
    Refused lib wiring (RelayService.enforceAccountRate cfg account) := by
  rintro answer record ⟨⟩ ⟨-, count, rfl⟩
  have last : Refused lib wiring (if count + 1 > cfg.accountLimit then
      throw (.relayRejected .rateLimited
        "Too many trades from this account in a short time. Wait a moment and try again.")
      else return () : Relay Unit) := by
    rw [if_pos (none ▸ Nat.succ_pos count)]
    exact ⟨_, rfl, rfl⟩
  change Refused lib wiring ((if count + 1 = 1 then _ else _) >>= fun _ => _)
  split
  · rintro answer record ⟨⟩ ⟨-, ⟨⟩, rfl⟩
    exact last
  · exact last

/-- A ceiling of nothing is always reached. -/
theorem refused_enforceDailyCap (none : cfg.dailyCapWei = 0) :
    Refused lib wiring (RelayService.enforceDailyCap cfg) := by
  rintro answer record ⟨⟩ ⟨-, now, rfl⟩ answer record ⟨⟩ ⟨-, spent, rfl⟩
  have reached : spent.getD 0 * RelayService.gweiWei ≥ cfg.dailyCapWei := by
    rw [none]
    exact Nat.zero_le _
  change Refused lib wiring (if spent.getD 0 * RelayService.gweiWei ≥ cfg.dailyCapWei then _ else _)
  rw [if_pos reached]
  exact ⟨_, rfl, rfl⟩

end Parts

/-! ## Decoding -/

section Decoding

variable {α β : Type} {lib : RelayLibraries} {cfg : RelayConfig} {wiring : Wiring}

/-- A decoding that fails throws what the language and the encoder do. -/
def OnlyThrown (decoded : Except RelayError β) : Prop :=
  ∀ error, decoded = .error error → ∃ thrown, error = .thrown thrown

namespace OnlyThrown

theorem ok (value : β) : OnlyThrown (.ok value) := by
  intro error same
  cases same

theorem error (thrown : ThrownError) : OnlyThrown (.error (.thrown thrown) : Except RelayError β) :=
  fun _ same => ⟨thrown, (Except.error.inj same).symm⟩

theorem bind {first : Except RelayError β} {rest : β → Except RelayError α}
    (fails : OnlyThrown first) (follows : ∀ value, OnlyThrown (rest value)) :
    OnlyThrown (first >>= rest) := by
  cases first with
  | ok value => exact follows value
  | error thrown => exact fun error same => fails error (congrArg Except.error (Except.error.inj same))

theorem mapM {decode : α → Except RelayError β} (fails : ∀ item, OnlyThrown (decode item))
    (items : List α) : OnlyThrown (items.mapM decode) := by
  induction items with
  | nil => exact ok []
  | cons item rest ih =>
      rw [List.mapM_cons]
      exact bind (fails item) fun value => bind ih fun values => ok _

theorem bigInt (text : JsString) : OnlyThrown (Numera.bigInt text) := by
  unfold Numera.bigInt
  split
  · exact ok _
  · exact error _

theorem bigIntOption (text : Option JsString) : OnlyThrown (Numera.bigIntOption text) := by
  cases text with
  | none => exact error _
  | some text => exact bigInt text

theorem encodeFunctionData (data : ContractCall) :
    OnlyThrown (Numera.encodeFunctionData lib data) := by
  unfold Numera.encodeFunctionData
  split
  · exact ok _
  · exact error _

end OnlyThrown

/-- What follows a decoding is answered when it is decoded, and answered then. -/
theorem Answered.decoded_iff {decoded : Except RelayError β} {rest : β → Relay α}
    (fails : OnlyThrown decoded) :
    Answered lib wiring (Async.done decoded >>= rest) ↔
      ∃ value, decoded = .ok value ∧ Answered lib wiring (rest value) := by
  cases decoded with
  | ok value =>
      refine ⟨fun answered => ⟨value, rfl, answered⟩, fun ⟨other, same, answered⟩ => ?_⟩
      obtain rfl := Except.ok.inj same
      exact answered
  | error error =>
      obtain ⟨thrown, rfl⟩ := fails error rfl
      refine ⟨fun answered => absurd answered (not_thrown thrown), fun ⟨other, same, _⟩ => ?_⟩
      cases same

/-- What only the wiring decides. -/
theorem Answered.wiring_iff {rest : Wiring → Relay α} :
    Answered lib wiring (RelayCall.wiring.request >>= rest) ↔ Answered lib wiring (rest wiring) := by
  constructor
  · exact fun answered => answered (.ok wiring) _ () (performed rfl)
  · intro answered answer record later normal
    obtain rfl : answer = .ok wiring := normal.2
    exact answered

/-- A check whose failure is a refusal. -/
theorem Answered.guarded_iff {refusal : RelayError} (isRefusal : refusal.isRefusal) {fails : Prop}
    [Decidable fails] {task : Relay α} :
    Answered lib wiring (if fails then throw refusal else task) ↔
      (¬ fails → Answered lib wiring task) := by
  by_cases failed : fails
  · rw [if_pos failed]
    exact iff_of_true (refused isRefusal) fun passed => absurd failed passed
  · rw [if_neg failed]
    exact ⟨fun answered _ => answered, fun answered => answered failed⟩

/-- The index may be synced. -/
theorem Answered.synced_iff {refusal : RelayError} (isRefusal : refusal.isRefusal) {task : Relay α} :
    Answered lib wiring (do
      let synced ← RelayCall.isSynced.request
      if !synced then throw refusal else task) ↔ Answered lib wiring task := by
  constructor
  · exact fun answered => answered (.ok true) _ () (performed ⟨true, rfl⟩)
  · rintro answered answer record ⟨⟩ ⟨-, synced, rfl⟩
    cases synced with
    | false => exact refused isRefusal
    | true => exact answered

theorem bigInt_eq_ok {text : JsString} {value : Int} :
    bigInt text = .ok value ↔ JsString.parseBigInt text = some value := by
  unfold bigInt
  split <;> rename_i read <;> simp [read]

theorem readsUint_iff {text : JsString} :
    readsUint text ↔ ∃ value, bigInt text = .ok value ∧ fitsUint 256 value := by
  simp only [readsUint, Option.any_eq_true, bigInt_eq_ok]

theorem encoded_iff {data encoded : ContractCall} :
    encodeFunctionData lib data = .ok encoded ↔ lib.encodes data ∧ encoded = data := by
  constructor
  · intro returned
    obtain rfl := eq_of_encoded returned
    refine ⟨?_, rfl⟩
    unfold encodeFunctionData at returned
    split at returned
    · assumption
    · cases returned
  · rintro ⟨encodes, rfl⟩
    exact if_pos encodes

/-- Validated digits are read. -/
theorem bigInt_of_isUint {text : JsString} (uint : text.isUint) :
    ∃ number : Nat, bigInt text = .ok number := by
  simp only [JsString.isUint, Bool.and_eq_true, decide_eq_true_eq, List.all_eq_true] at uint
  obtain ⟨⟨some, -⟩, digits⟩ := uint
  obtain ⟨number, read⟩ :=
    JsString.parseBigInt_of_digits (List.ne_nil_of_length_pos some) digits
  exact ⟨number, bigInt_eq_ok.mpr read⟩

theorem fitsBytes32_of_isBytes32 {text : JsString} (bytes : text.isBytes32) :
    fitsBytes32 text := by
  simp only [JsString.isBytes32, Bool.and_eq_true, decide_eq_true_eq] at bytes
  simp only [fitsBytes32, bytes.2, decide_eq_true_eq]

end Decoding

/-! ## Signed requests -/

section Requests

variable {lib : RelayLibraries} {cfg : RelayConfig} {wiring : Wiring} {isAddress : JsString → Bool}

/-- The numbers of a validated request are read. -/
theorem toContractRequest_ok {payload : RelayRequestDto} (valid : payload.valid) :
    ∃ value gas : Nat, bigInt payload.request.value = .ok value ∧
      bigInt payload.request.gas = .ok gas ∧
      RelayService.toContractRequest payload = .ok {
        «from» := payload.request.from
        «to» := payload.request.to
        value
        gas
        deadline := payload.request.deadline
        data := payload.request.data
        signature := payload.request.signature } := by
  simp only [RelayRequestDto.valid, ForwardRequestDto.valid, Bool.and_eq_true] at valid
  obtain ⟨value, readValue⟩ := bigInt_of_isUint valid.1.1.1.1.1.2
  obtain ⟨gas, readGas⟩ := bigInt_of_isUint valid.1.1.1.1.2
  refine ⟨value, gas, readValue, readGas, ?_⟩
  rw [RelayService.toContractRequest, readValue, readGas]
  rfl

/-- A validated request is encoded when its addresses and its numbers are. -/
theorem encodes_execute_iff (encoder : lib.Encodes isAddress) {payload : RelayRequestDto}
    (valid : payload.valid) {request : ContractRequest}
    (read : RelayService.toContractRequest payload = .ok request) :
    lib.encodes (.execute request) ↔
      isAddress payload.request.from && isAddress payload.request.to &&
        readsUint payload.request.value && readsUint payload.request.gas := by
  obtain ⟨value, gas, readValue, readGas, same⟩ := toContractRequest_ok valid
  obtain rfl := Except.ok.inj (read.symm.trans same)
  have fits : fitsUint 48 payload.request.deadline := by
    simp only [RelayRequestDto.valid, ForwardRequestDto.valid, Bool.and_eq_true,
      decide_eq_true_eq] at valid
    simp only [fitsUint, Bool.and_eq_true, decide_eq_true_eq]
    omega
  simp only [encoder _, ContractCall.fits, ContractRequest.fits, Bool.and_eq_true, readsUint_iff,
    readValue, readGas, fits, and_true, Except.ok.injEq, exists_eq_left']

theorem forwarded_onlyThrown (payload : RelayRequestDto) (request : ContractRequest) :
    OnlyThrown (RelayService.forwarded lib payload request) := by
  unfold RelayService.forwarded
  split
  · exact .encodeFunctionData _
  · exact .bind (.bigInt _) fun _ => .bind (.bigInt _) fun _ => .encodeFunctionData _

/-- A request that can be encoded is so with its permit when that can be. -/
theorem forwarded_ok_iff (encoder : lib.Encodes isAddress) {payload : RelayRequestDto}
    (valid : payload.valid) {request : ContractRequest} (encodes : lib.encodes (.execute request)) :
    (∃ data, RelayService.forwarded lib payload request = .ok data) ↔
      ∀ permit, payload.permit = some permit →
        isAddress permit.owner && readsUint permit.value && readsUint permit.deadline := by
  unfold RelayService.forwarded
  split
  · rename_i none
    refine ⟨fun _ permit there => ?_, fun _ => ⟨_, encoded_iff.mpr ⟨encodes, rfl⟩⟩⟩
    rw [none] at there
    cases there
  · rename_i permit there
    have validated : permit.valid := by
      simp only [RelayRequestDto.valid, there, Option.all_some, Bool.and_eq_true] at valid
      exact valid.2
    simp only [PermitDto.valid, Bool.and_eq_true, decide_eq_true_eq] at validated
    obtain ⟨⟨⟨⟨⟨⟨-, value⟩, deadline⟩, -⟩, small⟩, r⟩, s⟩ := validated
    obtain ⟨value, readValue⟩ := bigInt_of_isUint value
    obtain ⟨deadline, readDeadline⟩ := bigInt_of_isUint deadline
    have fits : fitsUint 8 permit.v := by
      simp only [fitsUint, Bool.and_eq_true, decide_eq_true_eq]
      omega
    have fitting : request.fits isAddress := (encoder _).symm.trans encodes
    rw [readValue, readDeadline]
    change (∃ data, encodeFunctionData lib _ = .ok data) ↔ _
    simp only [encoded_iff, encoder _, ContractCall.fits, fits, fitsBytes32_of_isBytes32 r,
      fitsBytes32_of_isBytes32 s, fitting, there, Bool.and_eq_true, readsUint_iff, readValue,
      readDeadline, and_true, exists_eq_right, Option.some.injEq, forall_eq', Except.ok.injEq,
      exists_eq_left']

theorem requestRefusal_isRefusal (error : RelayError) :
    (RelayService.requestRefusal error).isRefusal := by
  unfold RelayService.requestRefusal
  split <;> rfl

theorem answered_simulateAndSend_iff (payload : RelayRequestDto) (request : ContractRequest)
    (forwarder : JsString) :
    Answered lib wiring (RelayService.simulateAndSend lib cfg payload request forwarder) ↔
      ∃ data, RelayService.forwarded lib payload request = .ok data := by
  refine (Answered.decoded_iff (forwarded_onlyThrown payload request)).trans ?_
  exact exists_congr fun data => and_iff_left (answered_send requestRefusal_isRefusal)

/-- Behind the caps, the encoding of the request decides. -/
theorem answered_capped_iff (account : JsString) (task : Relay Nat) :
    Answered lib wiring (do
      RelayService.enforceAccountRate cfg account
      RelayService.enforceDailyCap cfg
      task) ↔ (0 < cfg.accountLimit → 0 < cfg.dailyCapWei → Answered lib wiring task) := by
  constructor
  · intro answered limited capped
    obtain ⟨rated, passed⟩ := passes_enforceAccountRate lib wiring limited account
    obtain ⟨charged, through⟩ := passes_enforceDailyCap lib wiring capped
    exact (answered.continues passed).continues through
  · intro answered
    rcases Nat.eq_zero_or_pos cfg.accountLimit with unlimited | limited
    · exact .refuses (refused_enforceAccountRate unlimited account)
    rcases Nat.eq_zero_or_pos cfg.dailyCapWei with uncapped | capped
    · exact .bind (answered_enforceAccountRate account) fun _ =>
        .refuses (refused_enforceDailyCap uncapped)
    · exact .bind (answered_enforceAccountRate account) fun _ =>
        .bind answered_enforceDailyCap fun _ => answered limited capped

/-- The verifier may find anything of a request that can be encoded, and is not asked about any
other. -/
theorem answered_verified_iff (forwarder : JsString) (request : ContractRequest) (message : String)
    (task : Relay Nat) :
    Answered lib wiring (do
      let valid ← tryCatch (RelayCall.verifyRelayable forwarder request).request fun _ => return false
      if !valid then throw (.relayRejected .invalid message) else task) ↔
        (lib.encodes (.execute request) → Answered lib wiring task) := by
  constructor
  · intro answered encodes
    exact answered (.ok true) _ () (Answered.performed fun _ _ => encodes)
  · intro answered answer record later normal
    cases answer with
    | error thrown => exact Answered.refused rfl
    | ok valid =>
        cases valid with
        | false => exact Answered.refused rfl
        | true => exact answered (normal.2 true rfl)

/-- A signed request with a destination is answered when what is forwarded of it is encoded. -/
theorem answered_submitRequest_iff (encoder : lib.Encodes isAddress) {payload : RelayRequestDto}
    (valid : payload.valid) {rules : RelayService.RequestRules} (wired : rules.destination.isSome) :
    Answered lib wiring (RelayService.submitRequest lib cfg rules payload) ↔
      (rules.admits cfg payload → 0 < cfg.accountLimit → 0 < cfg.dailyCapWei →
        isAddress payload.request.from && isAddress payload.request.to &&
            readsUint payload.request.value && readsUint payload.request.gas →
          ∀ permit, payload.permit = some permit →
            isAddress permit.owner && readsUint permit.value && readsUint permit.deadline) := by
  obtain ⟨destination, there⟩ := Option.isSome_iff_exists.mp wired
  obtain ⟨_, _, -, -, read⟩ := toContractRequest_ok valid
  generalize ContractRequest.mk .. = request at read
  have decides := encodes_execute_iff encoder valid read
  have forwards := fun encodes => forwarded_ok_iff encoder valid (decides.mpr encodes)
  unfold RelayService.submitRequest RelayService.RequestRules.admits
  simp only [there, read, Async.done_ok_bind]
  cases rules.refusal cfg destination payload request with
  | some message => exact iff_of_true (Answered.refused rfl) fun refused => by cases refused
  | none =>
      rw [answered_capped_iff, answered_verified_iff, Answered.exclusively_iff,
        answered_simulateAndSend_iff, decides]
      refine ⟨fun answered _ limited capped encodes => ?_,
        fun encodes limited capped fits => (forwards fits).mpr (encodes rfl limited capped fits)⟩
      exact (forwards encodes).mp (answered limited capped encodes)

theorem answered_submit_iff (encoder : lib.Encodes isAddress) {payload : RelayRequestDto}
    (valid : payload.valid) :
    Answered lib wiring (RelayService.submit lib cfg payload) ↔
      (RelayRequest.submit payload).Encodes lib cfg wiring isAddress := by
  refine Answered.wiring_iff.trans ?_
  simp only [RelayRequest.Encodes, RelayRequest.ForwardEncodes, RelayRequest.counted]
  cases on : cfg.enabled && wiring.connected with
  | false =>
      exact iff_of_true (Answered.refused rfl) ⟨(fun off => by cases off), fun off => by cases off⟩
  | true =>
      simp only [Bool.not_true, Bool.false_eq_true, if_false, Bool.true_and, true_implies]
      cases engine : wiring.engine with
      | none =>
          obtain ⟨_, _, -, -, read⟩ := toContractRequest_ok valid
          refine ⟨fun answered => ?_, fun encodes => by cases encodes.1⟩
          simp only [RelayService.submitRequest, read, Async.done_ok_bind,
            RelayService.tradingRules, engine] at answered
          exact absurd answered (Answered.not_thrown _)
      | some target =>
          have wired : (RelayService.tradingRules lib cfg wiring).destination.isSome := by
            rw [RelayService.tradingRules, engine]
            rfl
          exact (answered_submitRequest_iff encoder valid wired).trans
            ⟨fun encodes => ⟨rfl, encodes⟩, And.right⟩

theorem answered_submitResolution_iff (encoder : lib.Encodes isAddress) {payload : RelayRequestDto}
    (valid : payload.valid) :
    Answered lib wiring (RelayService.submitResolution lib cfg payload) ↔
      (RelayRequest.submitResolution payload).Encodes lib cfg wiring isAddress := by
  refine Answered.wiring_iff.trans ?_
  simp only [RelayRequest.Encodes, RelayRequest.ForwardEncodes, RelayRequest.counted]
  cases on : cfg.enabled && wiring.connected with
  | false => exact iff_of_true (Answered.refused rfl) fun off => by cases off
  | true =>
      simp only [Bool.not_true, Bool.false_eq_true, if_false, Bool.true_and]
      cases wiring.resolver with
      | none => exact iff_of_true (Answered.refused rfl) fun off => by cases off
      | some resolver => exact answered_submitRequest_iff encoder valid rfl

theorem permitCall_onlyThrown (permit : PermitRequestDto) :
    OnlyThrown (RelayService.permitCall lib permit) :=
  .bind (.bigInt _) fun _ => .bind (.bigInt _) fun _ => .encodeFunctionData _

theorem permitCall_ok_iff (encoder : lib.Encodes isAddress) {permit : PermitRequestDto}
    (valid : permit.valid) :
    (∃ data, RelayService.permitCall lib permit = .ok data) ↔
      isAddress permit.owner && isAddress permit.spender && readsUint permit.value &&
        readsUint permit.deadline := by
  simp only [PermitRequestDto.valid, PermitDto.valid, Bool.and_eq_true, decide_eq_true_eq] at valid
  obtain ⟨-, ⟨⟨⟨⟨⟨-, value⟩, deadline⟩, -⟩, small⟩, r⟩, s⟩ := valid
  obtain ⟨value, readValue⟩ := bigInt_of_isUint value
  obtain ⟨deadline, readDeadline⟩ := bigInt_of_isUint deadline
  have fits : fitsUint 8 permit.v := by
    simp only [fitsUint, Bool.and_eq_true, decide_eq_true_eq]
    omega
  unfold RelayService.permitCall
  rw [readValue, readDeadline]
  change (∃ data, encodeFunctionData lib _ = .ok data) ↔ _
  simp only [encoded_iff, encoder _, ContractCall.fits, fits, fitsBytes32_of_isBytes32 r,
    fitsBytes32_of_isBytes32 s, Bool.and_eq_true, readsUint_iff, readValue, readDeadline, and_true,
    exists_eq_right, Except.ok.injEq, exists_eq_left']

theorem answered_submitPermit_iff (encoder : lib.Encodes isAddress) {permit : PermitRequestDto}
    (valid : permit.valid) :
    Answered lib wiring (RelayService.submitPermit lib cfg permit) ↔
      (RelayRequest.submitPermit permit).Encodes lib cfg wiring isAddress := by
  refine Answered.wiring_iff.trans ?_
  simp only [RelayRequest.Encodes, RelayRequest.counted]
  cases on : cfg.enabled && wiring.connected with
  | false => exact iff_of_true (Answered.refused rfl) fun off => by cases off
  | true =>
      simp only [Bool.not_true, Bool.false_eq_true, if_false, Bool.true_and]
      by_cases spends : permit.spender.toLowerCase ∈ wiring.permitSpenders
      · rw [if_neg (not_not_intro spends), decide_eq_true spends, answered_capped_iff,
          Answered.decoded_iff (permitCall_onlyThrown permit), ← permitCall_ok_iff encoder valid]
        simp only [true_implies]
        refine imp_congr_right fun _ => imp_congr_right fun _ => exists_congr fun data => ?_
        exact and_iff_left ((Answered.exclusively_iff _ _).mpr (answered_send fun _ => rfl))
      · rw [if_pos spends, decide_eq_false spends]
        exact iff_of_true (Answered.refused rfl) fun off => by cases off

end Requests

/-! ## Proofs and deposits -/

section Pool

variable {lib : RelayLibraries} {cfg : RelayConfig} {wiring : Wiring} {isAddress : JsString → Bool}

theorem point_onlyThrown (row : List (Option JsString)) : OnlyThrown (PoolService.point row) :=
  .bind (.bigIntOption _) fun _ => .bind (.bigIntOption _) fun _ => .ok _

theorem readProof_onlyThrown (proof : WithdrawProofDto) (signals : List Int) :
    OnlyThrown (PoolService.readProof proof signals) :=
  .bind (point_onlyThrown _) fun _ => .bind (point_onlyThrown _) fun _ =>
    .bind (point_onlyThrown _) fun _ => .bind (point_onlyThrown _) fun _ => .ok _

theorem any_readsUint_iff {text : Option JsString} :
    text.any readsUint ↔ ∃ value, bigIntOption text = .ok value ∧ fitsUint 256 value := by
  cases text with
  | none => exact iff_of_false Bool.false_ne_true fun ⟨_, same, _⟩ => by cases same
  | some text => exact readsUint_iff

theorem exists_ok_bind_iff {α β : Type} {first : Except RelayError β}
    {rest : β → Except RelayError α} {holds : α → Prop} :
    (∃ value, first >>= rest = .ok value ∧ holds value) ↔
      ∃ middle, first = .ok middle ∧ ∃ value, rest middle = .ok value ∧ holds value := by
  constructor
  · rintro ⟨value, returned, held⟩
    obtain ⟨middle, here, later⟩ := bind_eq_ok returned
    exact ⟨middle, here, value, later, held⟩
  · rintro ⟨middle, rfl, value, later, held⟩
    exact ⟨value, later, held⟩

theorem readsPoint_iff {row : List (Option JsString)} :
    readsPoint row ↔ ∃ values, PoolService.point row = .ok values ∧ fitsPoint values := by
  simp only [PoolService.point, exists_ok_bind_iff, readsPoint, Bool.and_eq_true, any_readsUint_iff]
  constructor
  · rintro ⟨⟨first, readFirst, fitsFirst⟩, second, readSecond, fitsSecond⟩
    exact ⟨first, readFirst, second, readSecond, _, rfl, by simp [fitsPoint, fitsFirst, fitsSecond]⟩
  · rintro ⟨first, readFirst, second, readSecond, _, ⟨⟩, fits⟩
    simp only [fitsPoint, List.all_cons, List.all_nil, Bool.and_true, Bool.and_eq_true] at fits
    exact ⟨⟨first, readFirst, fits.2.1⟩, second, readSecond, fits.2.2⟩

/-- A proof is read and fits when its points and signals are. -/
theorem readProof_fits_iff (proof : WithdrawProofDto) (signals : List Int) :
    (∃ read, PoolService.readProof proof signals = .ok read ∧ read.fits) ↔
      (readsPoint (proof.pA.map some) ∧ readsPoint ((proof.pB[0]?).getD []) ∧
        readsPoint ((proof.pB[1]?).getD []) ∧ readsPoint (proof.pC.map some)) ∧
        signals.length = 8 ∧ signals.all (fitsUint 256) := by
  simp only [PoolService.readProof, exists_ok_bind_iff, readsPoint_iff]
  constructor
  · rintro ⟨pA, readA, first, readFirst, second, readSecond, pC, readC, _, ⟨⟩, fits⟩
    simp only [WithdrawProof.fits, List.all_cons, List.all_nil, Bool.and_true, Bool.and_eq_true,
      decide_eq_true_eq] at fits
    obtain ⟨⟨⟨fitsA, -, fitsFirst, fitsSecond⟩, fitsC⟩, eight, fitsSignals⟩ := fits
    exact ⟨⟨⟨pA, readA, fitsA⟩, ⟨first, readFirst, fitsFirst⟩, ⟨second, readSecond, fitsSecond⟩,
      pC, readC, fitsC⟩, eight, fitsSignals⟩
  · rintro ⟨⟨⟨pA, readA, fitsA⟩, ⟨first, readFirst, fitsFirst⟩, ⟨second, readSecond, fitsSecond⟩,
      pC, readC, fitsC⟩, eight, fitsSignals⟩
    refine ⟨pA, readA, first, readFirst, second, readSecond, pC, readC, _, rfl, ?_⟩
    simp only [WithdrawProof.fits, List.all_cons, List.all_nil, Bool.and_true, Bool.and_eq_true,
      decide_eq_true_eq]
    exact ⟨⟨⟨fitsA, rfl, fitsFirst, fitsSecond⟩, fitsC⟩, eight, fitsSignals⟩

/-- Validated signals are read, one for one. -/
theorem signals_ok {texts : List JsString} (uints : ∀ text ∈ texts, text.isUint) :
    ∃ signals, texts.mapM bigInt = .ok signals ∧ signals.length = texts.length ∧
      signals.all (fitsUint 256) = texts.all readsUint ∧
      ∀ index : Nat, signals[index]? = (texts[index]?).bind JsString.parseBigInt := by
  induction texts with
  | nil => exact ⟨[], rfl, rfl, rfl, fun _ => rfl⟩
  | cons text rest ih =>
      obtain ⟨value, read⟩ := bigInt_of_isUint (uints text List.mem_cons_self)
      obtain ⟨values, readRest, length, fits, at_⟩ :=
        ih fun other member => uints other (List.mem_cons_of_mem _ member)
      refine ⟨value :: values, ?_, congrArg (· + 1) length, ?_, fun index => ?_⟩
      · rw [List.mapM_cons, read, readRest]
        rfl
      · rw [List.all_cons, List.all_cons, fits, readsUint, bigInt_eq_ok.mp read, Option.any_some]
      · cases index with
        | zero => exact (bigInt_eq_ok.mp read).symm
        | succ index => exact at_ index

/-- With the labels readable there is a history. -/
theorem aspRootHistory_ok (lib : RelayLibraries) {rows : List PoolLeaf}
    (readable : PoolTree.Readable rows) : ∃ known, PoolService.aspRootHistory lib rows = .ok known := by
  have same : (rows.filter fun row => row.kind = .deposit).filterMap PoolLeaf.label =
      PoolTree.labels rows := by
    rw [List.filterMap_filter, PoolTree.labels]
    refine List.filterMap_congr fun leaf _ => ?_
    simp [PoolTree.approval]
  simp only [PoolService.aspRootHistory, same, PoolTree.readLabels readable]
  exact ⟨_, rfl⟩

theorem answered_publishAspRoot {root : Int} (encodes : lib.encodes (.updateRoot root)) :
    Answered lib wiring (PoolService.publishAspRoot lib cfg root) := by
  refine .bind (.perform fun _ normal => normal) fun current => ?_
  split
  · exact .returned ()
  · refine (Answered.decoded_iff (.encodeFunctionData _)).mpr ⟨_, encoded_iff.mpr ⟨encodes, rfl⟩, ?_⟩
    refine .bind (answered_sendFromRelayer _ _) fun hash =>
      .bind (.caught fun _ => .returned none) fun receipt => ?_
    split
    · exact .refused rfl
    · exact .returned ()

/-- The root may be there already, so that what is left to decide is the proof itself. -/
theorem answered_relayProof_iff (encoder : lib.Encodes isAddress) {root : Int} (data : JsString)
    {proof : WithdrawProof} (signalled : root ∈ proof.pubSignals) :
    Answered lib wiring (PoolService.relayProof lib cfg root data proof) ↔
      isAddress cfg.entrypoint ∧ proof.fits := by
  have encodes : lib.encodes (.relay cfg.entrypoint data proof) ↔
      isAddress cfg.entrypoint ∧ proof.fits := by
    rw [encoder, ContractCall.fits, Bool.and_eq_true]
  rw [← encodes]
  constructor
  · intro answered
    have given : normally lib wiring .latestRoot () (.ok root) [.latestRoot] () :=
      Answered.performed ⟨root, rfl⟩
    have there : Reaches (normally lib wiring) (PoolService.publishAspRoot lib cfg root) ()
        [.latestRoot] (.done (.ok ())) () := by
      refine .step given ?_
      change Reaches _ (if root = root then _ else _) _ _ _ _
      rw [if_pos rfl]
      exact .refl _ ()
    obtain ⟨call, encoded, -⟩ :=
      (Answered.decoded_iff (.encodeFunctionData _)).mp (answered.continues there)
    exact (encoded_iff.mp encoded).1
  · intro relayed
    have fits : fitsUint 256 root := by
      have parts := (encodes.mp relayed).2
      simp only [WithdrawProof.fits, Bool.and_eq_true, List.all_eq_true] at parts
      exact parts.2.2 root signalled
    have publishes : lib.encodes (.updateRoot root) := (encoder _).trans fits
    refine .bind (answered_publishAspRoot publishes) fun _ =>
      (Answered.decoded_iff (.encodeFunctionData _)).mpr
        ⟨_, encoded_iff.mpr ⟨relayed, rfl⟩, .caught fun _ => .refused rfl⟩

theorem readProof_pubSignals {proof : WithdrawProofDto} {signals : List Int} {read : WithdrawProof}
    (returned : PoolService.readProof proof signals = .ok read) : read.pubSignals = signals := by
  obtain ⟨pA, -, returned⟩ := bind_eq_ok returned
  obtain ⟨first, -, returned⟩ := bind_eq_ok returned
  obtain ⟨second, -, returned⟩ := bind_eq_ok returned
  obtain ⟨pC, -, returned⟩ := bind_eq_ok returned
  obtain rfl := Except.ok.inj returned
  rfl

/-- What is left to do with a proof, once its root has been recognised. -/
theorem answered_readProof_iff (encoder : lib.Encodes isAddress) {proof : WithdrawProofDto}
    (valid : proof.valid) {signals : List Int} (read : proof.pubSignals.mapM bigInt = .ok signals)
    {root : Int} (signalled : root ∈ signals) (data : JsString) :
    Answered lib wiring (do
      let proof ← Async.done (PoolService.readProof proof signals)
      exclusively .lock (PoolService.relayProof lib cfg root data proof)) ↔
        RelayRequest.proofEncodes cfg isAddress proof := by
  simp only [WithdrawProofDto.valid, Bool.and_eq_true, decide_eq_true_eq, List.all_eq_true] at valid
  obtain ⟨same, readSame, length, fits, -⟩ := signals_ok valid.2
  obtain rfl := Except.ok.inj (read.symm.trans readSame)
  rw [Answered.decoded_iff (readProof_onlyThrown proof signals)]
  have each : ∀ made, PoolService.readProof proof signals = .ok made ∧
      Answered lib wiring (exclusively .lock (PoolService.relayProof lib cfg root data made)) ↔
        isAddress cfg.entrypoint ∧ PoolService.readProof proof signals = .ok made ∧ made.fits := by
    intro made
    rw [Answered.exclusively_iff, and_left_comm]
    refine and_congr_right fun returned => ?_
    exact answered_relayProof_iff encoder data (readProof_pubSignals returned ▸ signalled)
  rw [exists_congr each, exists_and_left, readProof_fits_iff, length, fits, valid.1.2]
  simp only [RelayRequest.proofEncodes, Bool.and_eq_true]
  tauto

/-- What is looked up of a proof that names its withdrawal. -/
theorem answered_recognised_iff (encoder : lib.Encodes isAddress) {proof : WithdrawProofDto}
    (valid : proof.valid) {signals : List Int} (read : proof.pubSignals.mapM bigInt = .ok signals)
    (data : JsString) :
    Answered lib wiring (do
      let rows ← RelayCall.leaves.request
      let known ← Async.done (PoolService.aspRootHistory lib rows)
      let root ← Async.done (PoolService.recognised known signals)
      let proof ← Async.done (PoolService.readProof proof signals)
      exclusively .lock (PoolService.relayProof lib cfg root data proof)) ↔
        (RelayRequest.KnownRoot lib proof → RelayRequest.proofEncodes cfg isAddress proof) := by
  have signalAt : signals[PoolService.aspRootSignal]? =
      (proof.pubSignals[PoolService.aspRootSignal]?).bind JsString.parseBigInt := by
    simp only [WithdrawProofDto.valid, Bool.and_eq_true, List.all_eq_true] at valid
    obtain ⟨same, readSame, -, -, found⟩ := signals_ok valid.2
    obtain rfl := Except.ok.inj (read.symm.trans readSame)
    exact found _
  constructor
  · rintro answered ⟨rows, known, root, readable, history, signalled, among⟩
    have admitted := PoolTree.recognised_iff.mpr ⟨signalAt.trans signalled, among⟩
    have later := answered (.ok rows) _ () (Answered.performed ⟨rows, rfl, readable⟩)
    change Answered lib wiring (Async.done (PoolService.aspRootHistory lib rows) >>= fun known =>
      Async.done (PoolService.recognised known signals) >>= _) at later
    rw [history, Async.done_ok_bind, admitted] at later
    exact (answered_readProof_iff encoder valid read
      (List.mem_of_getElem? (signalAt.trans signalled)) data).mp later
  · rintro encodes answer record ⟨⟩ ⟨-, rows, rfl, readable⟩
    obtain ⟨known, history⟩ := aspRootHistory_ok lib readable
    change Answered lib wiring (Async.done (PoolService.aspRootHistory lib rows) >>= fun known =>
      Async.done (PoolService.recognised known signals) >>= _)
    rw [history, Async.done_ok_bind]
    cases admitted : PoolService.recognised known signals with
    | error thrown =>
        refine Answered.refused ?_
        unfold PoolService.recognised at admitted
        split at admitted
        · split at admitted
          · cases admitted
          · obtain rfl := Except.error.inj admitted
            rfl
        · obtain rfl := Except.error.inj admitted
          rfl
    | ok root =>
        obtain ⟨signalled, among⟩ := PoolTree.recognised_iff.mp admitted
        refine (answered_readProof_iff encoder valid read (List.mem_of_getElem? signalled) data).mpr
          (encodes ⟨rows, known, root, readable, history, signalAt.symm.trans signalled, among⟩)

/-- A withdrawal that is processed by the entrypoint. -/
theorem answered_withdraw_iff (encoder : lib.Encodes isAddress) {dto : PoolWithdrawDto}
    (valid : dto.valid) :
    Answered lib wiring (PoolService.withdraw lib cfg dto) ↔
      (RelayRequest.withdraw dto).Encodes lib cfg wiring isAddress := by
  unfold PoolService.withdraw
  simp only [RelayRequest.Encodes]
  cases cfg.poolEnabled with
  | false => exact iff_of_true (Answered.refused rfl) fun off => by cases off
  | true =>
      simp only [Bool.not_true, Bool.false_eq_true, if_false, true_implies]
      rw [Answered.synced_iff rfl]
      unfold PoolService.withdrawalOf PoolService.signalsOf
      cases named : dto.withdrawal with
      | none =>
          exact iff_of_false (Answered.not_thrown _) fun ⟨_, same, _⟩ => by cases same
      | some withdrawal =>
          simp only [Option.some.injEq, exists_eq_left']
          by_cases foreign : withdrawal.processooor.toLowerCase = cfg.entrypoint.toLowerCase
          · rw [if_neg (not_not_intro foreign), Async.done_ok_bind]
            cases proved : dto.proof with
            | none =>
                refine iff_of_false (Answered.not_thrown _) fun encodes => ?_
                obtain ⟨_, same, -⟩ := encodes foreign
                cases same
            | some proof =>
                have validated : proof.valid := by
                  simp only [PoolWithdrawDto.valid, proved, Option.all_some, Bool.and_eq_true] at valid
                  exact valid.2
                have uints := validated
                simp only [WithdrawProofDto.valid, Bool.and_eq_true, List.all_eq_true] at uints
                obtain ⟨signals, read, -⟩ := signals_ok uints.2
                simp only [read, Option.some.injEq, exists_eq_left']
                exact (answered_recognised_iff encoder validated read withdrawal.data).trans
                  ⟨fun encodes _ => encodes, fun encodes => encodes foreign⟩
          · rw [if_pos foreign]
            exact iff_of_true (Answered.refused rfl) fun same => absurd same foreign

theorem shieldCall_onlyThrown (dto : PoolShieldDto) (request : ShieldRequest) :
    OnlyThrown (PoolService.shieldCall lib dto request) := by
  unfold PoolService.shieldCall
  split
  · exact .encodeFunctionData _
  · exact .bind (.bigIntOption _) fun _ => .encodeFunctionData _

theorem shieldCall_ok_iff (encoder : lib.Encodes isAddress) {dto : PoolShieldDto}
    (valid : dto.valid) (request : ShieldRequest) :
    (∃ data, PoolService.shieldCall lib dto request = .ok data) ↔
      request.fits isAddress ∧
        ∀ permit, dto.permit = some permit → permit.deadline.any readsUint := by
  unfold PoolService.shieldCall
  split
  · rename_i none
    simp only [encoded_iff, exists_eq_right, encoder _, ContractCall.fits, none, reduceCtorEq,
      false_implies, implies_true, and_true]
  · rename_i permit there
    have validated : permit.valid := by
      simp only [PoolShieldDto.valid, there, Option.all_some, Bool.and_eq_true] at valid
      exact valid.2
    simp only [ShieldPermitDto.valid, Bool.and_eq_true, decide_eq_true_eq] at validated
    obtain ⟨⟨⟨-, small⟩, r⟩, s⟩ := validated
    have fits : fitsUint 8 permit.v := by
      simp only [fitsUint, Bool.and_eq_true, decide_eq_true_eq]
      omega
    have made : (∃ data, (bigIntOption permit.deadline >>= fun deadline => encodeFunctionData lib
        (.depositForWithPermit request dto.signature deadline permit.v permit.r permit.s)) =
          .ok data) ↔ ∃ deadline, bigIntOption permit.deadline = .ok deadline ∧
            request.fits isAddress ∧ fitsUint 256 deadline := by
      constructor
      · rintro ⟨data, returned⟩
        obtain ⟨deadline, read, encoded⟩ := bind_eq_ok returned
        have fitting := (encoder _).symm.trans (encoded_iff.mp encoded).1
        simp only [ContractCall.fits, Bool.and_eq_true] at fitting
        exact ⟨deadline, read, fitting.1.1.1.1, fitting.1.1.1.2⟩
      · rintro ⟨deadline, read, fitting, small⟩
        rw [read]
        refine ⟨_, encoded_iff.mpr ⟨(encoder _).trans ?_, rfl⟩⟩
        simp only [ContractCall.fits, fitting, small, fits, fitsBytes32_of_isBytes32 r,
          fitsBytes32_of_isBytes32 s, Bool.and_self]
    refine made.trans ?_
    simp only [there, Option.some.injEq, forall_eq', any_readsUint_iff]
    exact ⟨fun ⟨deadline, read, fitting, small⟩ => ⟨fitting, deadline, read, small⟩,
      fun ⟨fitting, deadline, read, small⟩ => ⟨deadline, read, fitting, small⟩⟩

/-- The numbers of a validated deposit are read. -/
theorem shieldRequest_ok {dto : PoolShieldDto} (valid : dto.valid) {request : ShieldRequestDto}
    (there : dto.request = some request) :
    ∃ value precommitment deadline : Nat, bigInt request.value = .ok value ∧
      bigInt request.precommitment = .ok precommitment ∧ bigInt request.deadline = .ok deadline ∧
      PoolService.shieldRequest dto =
        .ok { owner := request.owner, value, precommitment, deadline } := by
  simp only [PoolShieldDto.valid, there, Option.all_some, ShieldRequestDto.valid,
    Bool.and_eq_true] at valid
  obtain ⟨⟨⟨⟨⟨-, value⟩, precommitment⟩, deadline⟩, -⟩, -⟩ := valid
  obtain ⟨value, readValue⟩ := bigInt_of_isUint value
  obtain ⟨precommitment, readPrecommitment⟩ := bigInt_of_isUint precommitment
  obtain ⟨deadline, readDeadline⟩ := bigInt_of_isUint deadline
  refine ⟨value, precommitment, deadline, readValue, readPrecommitment, readDeadline, ?_⟩
  simp only [PoolService.shieldRequest, there, readValue, readPrecommitment, readDeadline]
  rfl

theorem answered_shield_iff (encoder : lib.Encodes isAddress) {dto : PoolShieldDto}
    (valid : dto.valid) :
    Answered lib wiring (PoolService.shield lib cfg dto) ↔
      (RelayRequest.shield dto).Encodes lib cfg wiring isAddress := by
  unfold PoolService.shield
  simp only [RelayRequest.Encodes]
  cases cfg.poolEnabled with
  | false => exact iff_of_true (Answered.refused rfl) fun off => by cases off
  | true =>
      simp only [Bool.not_true, Bool.false_eq_true, if_false, true_implies]
      cases there : dto.request with
      | none =>
          simp only [PoolService.shieldRequest, there]
          exact iff_of_false (Answered.not_thrown _) fun ⟨_, same, _⟩ => by cases same
      | some request =>
          obtain ⟨value, precommitment, deadline, readValue, readPrecommitment, readDeadline, read⟩ :=
            shieldRequest_ok valid there
          simp only [read, Async.done_ok_bind, Option.some.injEq, exists_eq_left',
            bigInt_eq_ok.mp readValue, readsUint_iff, readValue, readPrecommitment, readDeadline,
            Bool.and_eq_true, Except.ok.injEq]
          by_cases nothing : (value : Int) = 0
          · rw [if_pos nothing]
            exact iff_of_true (Answered.refused rfl) fun positive =>
              absurd (congrArg some nothing) positive
          · have positive : some (value : Int) ≠ some 0 := fun same => nothing (Option.some.inj same)
            have decides := shieldCall_ok_iff encoder valid
              { owner := request.owner, value, precommitment, deadline }
            simp only [ShieldRequest.fits, Bool.and_eq_true] at decides
            rw [if_neg nothing, forall_prop_of_true positive, ← decides]
            constructor
            · intro answered
              have early : ¬ (deadline : Int) * 1000 < (0 : Nat) := by omega
              have now := answered.continues (.step (Answered.performed ⟨0, rfl⟩) (.refl _ ()))
              obtain ⟨data, made, -⟩ := (Answered.decoded_iff (shieldCall_onlyThrown _ _)).mp
                ((Answered.guarded_iff rfl).mp now early)
              exact ⟨data, made⟩
            · rintro ⟨data, made⟩
              refine .bind (.perform fun _ normal => normal) fun now =>
                (Answered.guarded_iff rfl).mpr fun _ => ?_
              exact (Answered.decoded_iff (shieldCall_onlyThrown _ _)).mpr
                ⟨data, made, .caught fun _ => .refused rfl⟩

end Pool

namespace SampleRelay

/-- Addresses as the encoder takes them, of those in lower case. -/
def isLowerAddress (text : JsString) : Bool := text.isAddress && text.toLowerCase = text

/-- The libraries, with an encoder that throws. -/
def strictLibraries : RelayLibraries :=
  { libraries with encodes := fun call => call.fits isLowerAddress }

/-- An approval of the engine for an amount. -/
def approval (value : Nat) : RelayRequest := .submitPermit {
  token := address 'c'
  owner := address '1'
  spender := address 'e'
  value := decimalString value
  deadline := decimalString 4102444800
  v := 27
  r := word '2'
  s := word '3' }

end SampleRelay

open SampleRelay in
/-- **An approval of 2 ^ 256 passes the validators**, and ends with what the encoder throws. -/
theorem oversized_approval_escapes :
    (approval (2 ^ 256)).valid ∧ strictLibraries.Encodes isLowerAddress ∧
      ¬ Answered strictLibraries wiring ((approval (2 ^ 256)).start strictLibraries config) := by
  have valid : (approval (2 ^ 256)).valid := by decide +kernel
  have encoder : strictLibraries.Encodes isLowerAddress := fun _ => rfl
  have oversized : readsUint (decimalString (2 ^ 256)) = false := by decide +kernel
  refine ⟨valid, encoder, fun answered => ?_⟩
  have encodes := (answered_submitPermit_iff encoder valid).mp answered
  have read := encodes (by decide +kernel) (by decide) (by decide)
  simp only [oversized, Bool.and_false, Bool.false_and, Bool.false_eq_true] at read

/-- **What can be encoded is answered, and nothing else.** -/
theorem answered_iff {lib : RelayLibraries} {isAddress : JsString → Bool}
    (encoder : lib.Encodes isAddress) (cfg : RelayConfig) (wiring : Wiring) (request : RelayRequest)
    (valid : request.valid) :
    Answered lib wiring (request.start lib cfg) ↔ request.Encodes lib cfg wiring isAddress := by
  cases request with
  | submit payload => exact answered_submit_iff encoder valid
  | submitResolution payload => exact answered_submitResolution_iff encoder valid
  | submitPermit permit => exact answered_submitPermit_iff encoder valid
  | sendFromRelayer destination data => cases valid
  | withdraw dto => exact answered_withdraw_iff encoder valid
  | shield dto => exact answered_shield_iff encoder valid

open SampleRelay in
/-- An approval of a smaller amount is answered. -/
theorem answered_iff_approval :
    Answered strictLibraries wiring ((approval 5000000).start strictLibraries config) :=
  (answered_iff (fun _ => rfl) config wiring (approval 5000000) (by decide +kernel)).mpr
    fun _ _ _ => by decide +kernel

end Numera
