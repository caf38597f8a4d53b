import Sybil.Contracts.Vault
import Sybil.Lib.Report

/-!
# `SybilVault`: the whole contract

Deposits, the escape mode, pause and the timelocked parameters, around the withdrawals of
`Sybil.Contracts.Vault`.  A call is made in a context that says who calls, when, and what the
other contracts answer.  A call that succeeds returns the new storage and a receipt: the token
transfer that went out, if one did, and the events.

The token does not call back: a transfer is an answer of the context.
-/

namespace Sybil.Contracts

open L1Protocol

/-- `SybilTypes.EscapeClaimPublicInputs`. -/
structure EscapeClaimPublicInputs where
  stateRoot : Digest
  height : ℕ
  accountId : ℕ
  recipient : EthAddress
  amount : ℕ
  nullifier : Digest
  deriving DecidableEq

/-- `SybilAccessControl.TimelockProposal`; a deleted one is absent. -/
structure TimelockProposal where
  operation : Digest
  dataHash : Digest
  executableAt : ℕ
  deriving DecidableEq

/-- The storage of the vault. -/
structure VaultContract extends SybilVault where
  /-- The address of the contract. -/
  self : EthAddress
  admin : EthAddress
  adminActionDelay : ℕ
  timelockProposals : OrdMap Digest TimelockProposal
  deployedAt : ℕ
  verifier : EthAddress
  escapeVerifier : EthAddress
  escapeTimeout : ℕ
  escapeModeActivatedAt : ℕ
  escapeStateRoot : Digest
  escapeHeight : ℕ
  depositCount : ℕ
  currentDepositRoot : Digest
  depositRootByCount : OrdMap ℕ Digest
  filledSubtrees : List Digest
  zeroHashes : List Digest
  deriving DecidableEq

/-- Who calls, when, and what the other contracts answer. -/
structure CallContext where
  sender : EthAddress
  timestamp : ℕ
  chainId : ℕ
  isAcceptedRoot : Digest → Bool
  latestRootVerifiedAt : ℕ
  latestStateRoot : Digest
  latestHeight : ℕ
  /-- Answer of the verifier at an address. -/
  verify : EthAddress → Bytes → Digest → Bool
  /-- Answer of the token to a transfer. -/
  transfers : Bool

/-- Why a call of the contract reverted. -/
inductive ContractError where
  | vault (error : VaultError)
  | onlyAdmin (account : EthAddress)
  | zeroAddress
  | proposalAlreadyExists (proposalId : Digest)
  | unknownProposal (proposalId : Digest)
  | timelockNotReady (proposalId : Digest) (executableAt : ℕ)
  | timestampOverflow
  | escapeModeInactive
  | escapeModeAlreadyActive
  | escapeStateRootUnavailable
  | depositsDisabledInEscapeMode
  | escapeClaimStaleRoot (providedRoot frozenRoot : Digest)
  | escapeClaimHeightMismatch (providedHeight frozenHeight : ℕ)
  | escapeNullifierMismatch (providedNullifier expectedNullifier : Digest)
  | escapeNullifierAlreadyUsed (nullifier : Digest)
  deriving DecidableEq

/-- The events of the contract. -/
inductive ContractEvent where
  | withdrawal (event : VaultEvent)
  | depositReceived (depositId : ℕ) (sender : EthAddress) (sybilAccountKey : Digest)
      (token : EthAddress) (amount : ℕ) (depositRoot : Digest)
  | escapeModeActivated (height : ℕ) (stateRoot : Digest) (activatedAt : ℕ)
  | escapeClaimed (accountId : ℕ) (recipient : EthAddress) (amount : ℕ)
      (stateRoot nullifier : Digest)
  | parameterUpdated (key : String) (oldValue newValue : ℕ)
  | verifierUpdated (verifier : EthAddress)
  | escapeVerifierUpdated (verifier : EthAddress)
  | paused (admin : EthAddress)
  | unpaused (admin : EthAddress)
  | timelockProposed (proposalId operation dataHash : Digest) (executableAt : ℕ)
  | timelockExecuted (proposalId operation dataHash : Digest)
  | timelockCanceled (proposalId operation dataHash : Digest)
  | adminTransferred (oldAdmin newAdmin : EthAddress)
  | adminActionDelayUpdated (oldDelay newDelay : ℕ)
  deriving DecidableEq

/-- What a successful call leaves behind besides the storage. -/
structure Receipt where
  /-- Recipient and amount of the outgoing transfer. -/
  transfer : Option (EthAddress × ℕ)
  events : List ContractEvent
  deriving DecidableEq

/-- The calls of the contract that change its storage. -/
inductive VaultCall where
  | deposit (amount : ℕ) (sybilAccountKey : Digest)
  | requestWithdrawal (inputs : WithdrawalPublicInputs) (proof : Bytes)
  | finalizeWithdrawal (nullifier : Digest)
  | escapeClaim (inputs : EscapeClaimPublicInputs) (proof : Bytes)
  | cancelWithdrawal (nullifier : Digest) (reason : String)
  | activateEscapeMode
  | pause
  | unpause
  | proposeVerifier (newVerifier : EthAddress)
  | setVerifier (newVerifier : EthAddress)
  | proposeEscapeVerifier (newEscapeVerifier : EthAddress)
  | setEscapeVerifier (newEscapeVerifier : EthAddress)
  | proposeWithdrawalDelay (newDelay : ℕ)
  | setWithdrawalDelay (newDelay : ℕ)
  | proposeEscapeTimeout (newTimeout : ℕ)
  | setEscapeTimeout (newTimeout : ℕ)
  | cancelProposal (proposalId : Digest)
  | proposeAdminTransfer (newAdmin : EthAddress)
  | executeAdminTransfer (newAdmin : EthAddress)
  | proposeAdminActionDelay (newDelay : ℕ)
  | executeAdminActionDelay (newDelay : ℕ)
  deriving DecidableEq

/-- Primitives with a given Keccak hash, for runs of the contract alone. -/
def onlyKeccak (keccak256 : Bytes → Digest) : Primitives where
  blake3 _ := 0
  sha256 _ := 0
  keccak256
  stateRootFromLeaves _ := 0
  eventsRootFromEventBytes _ := 0
  verifyP256Prehash _ _ _ := .ok ()
  verifyWebauthnEnvelope _ _ _ := .ok ()

/-- A `uint256` word. -/
def uint256Word (value : ℕ) : AbiWord := .bytes32 (Fin.ofNat _ value)

def withdrawalPublicInputHash (P : Primitives) (inputs : WithdrawalPublicInputs) : Digest :=
  P.keccak256 (abiEncodeDomainAndWords "sybil/openvm/withdrawal/v1"
    [.bytes32 inputs.stateRoot, .uint inputs.height, .bytes32 inputs.nullifier,
      .address inputs.recipient, .address inputs.token, uint256Word inputs.amount,
      .bytes32 inputs.claimKind])

def escapeClaimPublicInputHash (P : Primitives) (inputs : EscapeClaimPublicInputs) : Digest :=
  P.keccak256 (abiEncodeDomainAndWords "sybil/openvm/escape-claim/v1"
    [.bytes32 inputs.stateRoot, .uint inputs.height, .uint inputs.accountId,
      .address inputs.recipient, uint256Word inputs.amount, .bytes32 inputs.nullifier])

/-- The nullifier of the escape claim of an account against the frozen root. -/
def escapeNullifier (P : Primitives) (chainId : ℕ) (self : EthAddress) (accountId : ℕ)
    (stateRoot : Digest) : Digest :=
  P.keccak256 (abiEncodeDomainAndWords "sybil/escape-nullifier/v1"
    [uint256Word chainId, .address self, .uint accountId, .bytes32 stateRoot])

/-- Zero subtrees by level, up to the root of the empty tree. -/
def zeroHashesFrom (P : Primitives) : ℕ → Digest → List Digest
  | 0, zero => [zero]
  | levels + 1, zero => zero :: zeroHashesFrom P levels (hashNode P zero zero)

/-- The loop of `_appendDepositLeaf` over the remaining levels. -/
def appendLeafLoop (P : Primitives) (zeroHashes : List Digest) :
    List ℕ → ℕ → Digest → List Digest → List Digest × Digest
  | [], _, root, filledSubtrees => (filledSubtrees, root)
  | level :: levels, index, root, filledSubtrees =>
    if index % 2 = 0 then
      appendLeafLoop P zeroHashes levels (index / 2) (hashNode P root (zeroHashes.getD level 0))
        (filledSubtrees.set level root)
    else
      appendLeafLoop P zeroHashes levels (index / 2)
        (hashNode P (filledSubtrees.getD level 0) root) filledSubtrees

namespace VaultContract

variable (P : Primitives) (ctx : CallContext)

/-- The constructor. -/
def deploy (self admin token settlement verifier escapeVerifier : EthAddress)
    (withdrawalDelay escapeTimeout adminActionDelay timestamp : ℕ) :
    Except ContractError VaultContract := do
  ensure (admin ≠ 0) .zeroAddress
  ensure (token ≠ 0) .zeroAddress
  ensure (settlement ≠ 0) .zeroAddress
  ensure (verifier ≠ 0) .zeroAddress
  ensure (escapeVerifier ≠ 0) .zeroAddress
  let zeroHashes := zeroHashesFrom P depositTreeDepth 0
  let currentDepositRoot := zeroHashes.getD depositTreeDepth 0
  pure
    { token, withdrawalDelay, self, admin, adminActionDelay, verifier, escapeVerifier
      escapeTimeout, zeroHashes, currentDepositRoot
      paused := false
      escapeModeActive := false
      nullifierUsed := ∅
      withdrawals := ∅
      timelockProposals := ∅
      deployedAt := timestamp % 2 ^ 64
      escapeModeActivatedAt := 0
      escapeStateRoot := 0
      escapeHeight := 0
      depositCount := 0
      depositRootByCount := OrdMap.insert ∅ 0 currentDepositRoot
      filledSubtrees := List.replicate depositTreeDepth 0 }

/-- The leaf of a deposit; its amount is a `uint256`. -/
def depositLeaf (c : VaultContract) (depositId : ℕ) (sybilAccountKey : Digest) (amount : ℕ) :
    Digest :=
  P.keccak256 (abiEncodeDomainAndWords "sybil/l1-deposit/v1"
    [uint256Word ctx.chainId, .address c.self, .uint depositId, .address c.token,
      .address ctx.sender, .bytes32 sybilAccountKey, uint256Word amount])

def hashDepositLeaf (leaf : Digest) : Digest := P.keccak256 (0x00 :: leaf.toBytes)

/-- `_appendDepositLeaf`: the storage with the filled subtrees, and the new root. -/
def appendDepositLeaf (c : VaultContract) (depositId : ℕ) (leaf : Digest) :
    VaultContract × Digest :=
  let appended := appendLeafLoop P c.zeroHashes (List.range depositTreeDepth) (depositId - 1) leaf
    c.filledSubtrees
  ({ c with filledSubtrees := appended.1 }, appended.2)

def deposit (c : VaultContract) (amount : ℕ) (sybilAccountKey : Digest) :
    Except ContractError (VaultContract × Receipt) := do
  ensure (c.paused = false) (.vault .contractPaused)
  ensure (c.escapeModeActive = false) .depositsDisabledInEscapeMode
  ensure (amount ≠ 0) (.vault .amountZero)
  ensure (ctx.transfers = true) (.vault .transferFailed)
  let depositId ← okOr (checkedU64 (c.depositCount + 1)) (.vault .arithmeticOverflow)
  let leafHash := hashDepositLeaf P (c.depositLeaf P ctx depositId sybilAccountKey amount)
  let (appended, root) := c.appendDepositLeaf P depositId leafHash
  pure
    ({ appended with
        currentDepositRoot := root
        depositCount := depositId
        depositRootByCount := appended.depositRootByCount.insert depositId root },
      ⟨none, [.depositReceived depositId ctx.sender sybilAccountKey c.token amount root]⟩)

/-- A withdrawal call of the inner vault. -/
def ofVault (c : VaultContract) (transfer : Option (EthAddress × ℕ))
    (result : Except VaultError (SybilVault × VaultEvent)) :
    Except ContractError (VaultContract × Receipt) := do
  let (vault, event) ← result.mapError .vault
  pure ({ c with toSybilVault := vault }, ⟨transfer, [.withdrawal event]⟩)

def requestWithdrawal (c : VaultContract) (inputs : WithdrawalPublicInputs) (proof : Bytes) :
    Except ContractError (VaultContract × Receipt) :=
  c.ofVault none (c.toSybilVault.requestWithdrawal P ctx.isAcceptedRoot
    (fun inputs => ctx.verify c.verifier proof (withdrawalPublicInputHash P inputs)) ctx.timestamp
    inputs)

def finalizeWithdrawal (c : VaultContract) (nullifier : Digest) :
    Except ContractError (VaultContract × Receipt) :=
  c.ofVault (some ((c.queued nullifier).recipient, (c.queued nullifier).amount))
    (c.toSybilVault.finalizeWithdrawal ctx.transfers ctx.timestamp nullifier)

def cancelWithdrawal (c : VaultContract) (nullifier : Digest) (reason : String) :
    Except ContractError (VaultContract × Receipt) :=
  c.ofVault none (c.toSybilVault.cancelWithdrawal (decide (ctx.sender = c.admin)) ctx.timestamp
    nullifier reason)

def escapeClaim (c : VaultContract) (inputs : EscapeClaimPublicInputs) (proof : Bytes) :
    Except ContractError (VaultContract × Receipt) := do
  ensure (c.escapeModeActive = true) .escapeModeInactive
  ensure (inputs.stateRoot = c.escapeStateRoot)
    (.escapeClaimStaleRoot inputs.stateRoot c.escapeStateRoot)
  ensure (inputs.height = c.escapeHeight)
    (.escapeClaimHeightMismatch inputs.height c.escapeHeight)
  let expected := escapeNullifier P ctx.chainId c.self inputs.accountId inputs.stateRoot
  ensure (inputs.nullifier = expected) (.escapeNullifierMismatch inputs.nullifier expected)
  ensure (c.isUsed expected = false) (.escapeNullifierAlreadyUsed expected)
  ensure (ctx.verify c.escapeVerifier proof (escapeClaimPublicInputHash P inputs) = true)
    (.vault .invalidProof)
  ensure (ctx.transfers = true) (.vault .transferFailed)
  pure ({ c with toSybilVault := c.markUsed expected true },
    ⟨some (inputs.recipient, inputs.amount),
      [.escapeClaimed inputs.accountId inputs.recipient inputs.amount inputs.stateRoot expected]⟩)

def activateEscapeMode (c : VaultContract) : Except ContractError (VaultContract × Receipt) := do
  ensure (c.escapeModeActive = false) .escapeModeAlreadyActive
  -- Liveness counts from the last accepted root, or from deployment before the first.
  let livenessReference :=
    if ctx.latestRootVerifiedAt = 0 then c.deployedAt else ctx.latestRootVerifiedAt
  let deadline ← okOr (checkedU64 (livenessReference + c.escapeTimeout))
    (.vault .arithmeticOverflow)
  ensure (deadline < ctx.timestamp) .escapeModeInactive
  ensure (ctx.latestStateRoot ≠ 0) .escapeStateRootUnavailable
  pure
    ({ c with
        escapeStateRoot := ctx.latestStateRoot
        escapeHeight := ctx.latestHeight
        escapeModeActive := true
        escapeModeActivatedAt := ctx.timestamp % 2 ^ 64 },
      ⟨none, [.escapeModeActivated ctx.latestHeight ctx.latestStateRoot
        (ctx.timestamp % 2 ^ 64)]⟩)

def onlyAdmin (c : VaultContract) : Except ContractError Unit :=
  ensure (ctx.sender = c.admin) (.onlyAdmin ctx.sender)

def setPaused (c : VaultContract) (paused : Bool) :
    Except ContractError (VaultContract × Receipt) := do
  c.onlyAdmin ctx
  pure ({ c with paused },
    ⟨none, [if paused then .paused ctx.sender else .unpaused ctx.sender]⟩)

/-! ## Timelocked parameters -/

def proposalId (c : VaultContract) (operation : Digest) (data : Bytes) : Digest :=
  P.keccak256 (AbiWord.encode (.address c.self) ++ AbiWord.encode (.bytes32 operation) ++
    AbiWord.encode (.bytes32 (P.keccak256 data)))

/-- `_proposeTimelock`, for the admin. -/
def proposeTimelock (c : VaultContract) (operation : Digest) (data : Bytes) :
    Except ContractError (VaultContract × Receipt) := do
  let id := c.proposalId P operation data
  ensure (c.timelockProposals.contains id = false) (.proposalAlreadyExists id)
  let executableAt ← okOr (checkedU64 (ctx.timestamp + c.adminActionDelay)) .timestampOverflow
  pure
    ({ c with
        timelockProposals := c.timelockProposals.insert id
          ⟨operation, P.keccak256 data, executableAt⟩ },
      ⟨none, [.timelockProposed id operation (P.keccak256 data) executableAt]⟩)

/-- `_consumeTimelock`, then the change that was waited for. -/
def executeTimelock (c : VaultContract) (operation : Digest) (data : Bytes)
    (change : VaultContract → VaultContract) (event : ContractEvent) :
    Except ContractError (VaultContract × Receipt) := do
  let id := c.proposalId P operation data
  let proposal ← okOr (c.timelockProposals.get? id) (.unknownProposal id)
  ensure (proposal.executableAt ≤ ctx.timestamp) (.timelockNotReady id proposal.executableAt)
  pure (change { c with timelockProposals := c.timelockProposals.erase id },
    ⟨none, [.timelockExecuted id operation proposal.dataHash, event]⟩)

def cancelProposal (c : VaultContract) (id : Digest) :
    Except ContractError (VaultContract × Receipt) := do
  c.onlyAdmin ctx
  let proposal ← okOr (c.timelockProposals.get? id) (.unknownProposal id)
  pure ({ c with timelockProposals := c.timelockProposals.erase id },
    ⟨none, [.timelockCanceled id proposal.operation proposal.dataHash]⟩)

/-- Propose a new address for a role. -/
def proposeAddress (operation : String) (c : VaultContract) (address : EthAddress) :
    Except ContractError (VaultContract × Receipt) := do
  c.onlyAdmin ctx
  ensure (address ≠ 0) .zeroAddress
  c.proposeTimelock P ctx (P.keccak256 (utf8 operation)) (AbiWord.encode (.address address))

/-- Give a role its new address. -/
def executeAddress (operation : String) (c : VaultContract) (address : EthAddress)
    (change : VaultContract → VaultContract) (event : ContractEvent) :
    Except ContractError (VaultContract × Receipt) := do
  c.onlyAdmin ctx
  ensure (address ≠ 0) .zeroAddress
  c.executeTimelock P ctx (P.keccak256 (utf8 operation)) (AbiWord.encode (.address address)) change
    event

/-- Propose a new number for a parameter. -/
def proposeNumber (operation : String) (c : VaultContract) (value : ℕ) :
    Except ContractError (VaultContract × Receipt) := do
  c.onlyAdmin ctx
  c.proposeTimelock P ctx (P.keccak256 (utf8 operation)) (AbiWord.encode (.uint value))

/-- Give a parameter its new number. -/
def executeNumber (operation : String) (c : VaultContract) (value : ℕ)
    (change : VaultContract → VaultContract) (event : ContractEvent) :
    Except ContractError (VaultContract × Receipt) := do
  c.onlyAdmin ctx
  c.executeTimelock P ctx (P.keccak256 (utf8 operation)) (AbiWord.encode (.uint value)) change event

def opSetVerifier : String := "sybil/vault/set-verifier/v1"

def opSetEscapeVerifier : String := "sybil/vault/set-escape-verifier/v1"

def opSetWithdrawalDelay : String := "sybil/vault/set-withdrawal-delay/v1"

def opSetEscapeTimeout : String := "sybil/vault/set-escape-timeout/v1"

def opAdminTransfer : String := "sybil/admin/transfer/v1"

def opAdminActionDelay : String := "sybil/admin/action-delay/v1"

/-- Make a call. -/
def call (c : VaultContract) : VaultCall → Except ContractError (VaultContract × Receipt)
  | .deposit amount sybilAccountKey => c.deposit P ctx amount sybilAccountKey
  | .requestWithdrawal inputs proof => c.requestWithdrawal P ctx inputs proof
  | .finalizeWithdrawal nullifier => c.finalizeWithdrawal ctx nullifier
  | .escapeClaim inputs proof => c.escapeClaim P ctx inputs proof
  | .cancelWithdrawal nullifier reason => c.cancelWithdrawal ctx nullifier reason
  | .activateEscapeMode => c.activateEscapeMode ctx
  | .pause => c.setPaused ctx true
  | .unpause => c.setPaused ctx false
  | .proposeVerifier address => proposeAddress P ctx opSetVerifier c address
  | .setVerifier address =>
    executeAddress P ctx opSetVerifier c address (fun c => { c with verifier := address })
      (.verifierUpdated address)
  | .proposeEscapeVerifier address => proposeAddress P ctx opSetEscapeVerifier c address
  | .setEscapeVerifier address =>
    executeAddress P ctx opSetEscapeVerifier c address
      (fun c => { c with escapeVerifier := address }) (.escapeVerifierUpdated address)
  | .proposeWithdrawalDelay delay => proposeNumber P ctx opSetWithdrawalDelay c delay
  | .setWithdrawalDelay delay =>
    executeNumber P ctx opSetWithdrawalDelay c delay (fun c => { c with withdrawalDelay := delay })
      (.parameterUpdated "withdrawalDelay" c.withdrawalDelay delay)
  | .proposeEscapeTimeout timeout => proposeNumber P ctx opSetEscapeTimeout c timeout
  | .setEscapeTimeout timeout =>
    executeNumber P ctx opSetEscapeTimeout c timeout (fun c => { c with escapeTimeout := timeout })
      (.parameterUpdated "escapeTimeout" c.escapeTimeout timeout)
  | .cancelProposal id => c.cancelProposal ctx id
  | .proposeAdminTransfer address => proposeAddress P ctx opAdminTransfer c address
  | .executeAdminTransfer address =>
    executeAddress P ctx opAdminTransfer c address (fun c => { c with admin := address })
      (.adminTransferred c.admin address)
  | .proposeAdminActionDelay delay => proposeNumber P ctx opAdminActionDelay c delay
  | .executeAdminActionDelay delay =>
    executeNumber P ctx opAdminActionDelay c delay (fun c => { c with adminActionDelay := delay })
      (.adminActionDelayUpdated c.adminActionDelay delay)

end VaultContract

end Sybil.Contracts
