import JamScript.Common.LittleEndian
import JamScript.Common.Runs
import JamScript.Common.Tails

/-!
# The nonce lanes of the TypeScript client

`packages/client/src/client.ts`: how one client hands out the nonces of its actions. Wallet actions
go through `submitAction` as a whole; ownership actions are prepared, signed and submitted by three
calls, and may be abandoned in between. `submitOwnershipAction` makes these calls one after the
other.

The methods are asynchronous. What runs between two `await`s runs by itself, so a step of the model
is what a call does after an `await` up to its next one, and the event of the step carries the
answer that was waited for. A call that waits is an entry in a list of calls, and an event for a
call that does not wait for it changes nothing. Objects that are compared by identity are numbered.

A `Map` is a function to options. Of the actions only their nonces and hashes are kept; what else
could fail while an action is built or signed is part of the answers. Lanes are named by the
hexadecimal texts of public keys and nonce keys, transactions by their lower-case texts.
-/

namespace JamScript.Client

open Codec Function

/-! ## Answers of the backend -/

/-- What `submitTransaction` throws. -/
inductive SubmissionError where
  | rpcError (code : ℤ)
  /-- a failed connection, a timeout, anything that is not an `RpcError` -/
  | other
deriving DecidableEq

/-- The answers after which the network has certainly not taken the action. -/
def isDefiniteSubmissionRejection : SubmissionError → Bool
  | .other => false
  | .rpcError code =>
    if [-32600, -32601, -32602, -32003, -32010, -32011, -32031, -32032, -32033, -32043, -32044,
      -32045].contains code then true
    else [400, 401, 403, 404, 409, 422].contains code

/-- The states in which the backend reports a transaction. -/
inductive TransactionState where
  | queued | packaged | refining | reported | imported | reorged | submissionUnknown | failed
deriving DecidableEq

/-- What the backend says about the best chain. -/
inductive BestChainStatus where
  | included | notIncluded | unknown
deriving DecidableEq

/-- What became of an action. -/
inductive ReceiptStatus where
  | applied | failed | rejected
deriving DecidableEq

/-- The receipt of one action of a batch. -/
structure ActionReceipt where
  actionHash : Bytes
  status : ReceiptStatus
deriving DecidableEq

/-- What a status request returns. -/
structure TransactionStatusResult where
  status : TransactionState
  bestChainStatus : Option BestChainStatus
  finalized : Option Bool
  actionReceipts : Option (List ActionReceipt)
deriving DecidableEq

/-- The receipt of the action that the client submitted under the transaction. -/
def TransactionStatusResult.receipt (status : TransactionStatusResult) (actionHash : Option Bytes) :
    Option ActionReceipt := do
  let actionHash ← actionHash
  let receipts ← status.actionReceipts
  receipts.find? fun candidate => candidate.actionHash = actionHash

/-- The answers of `transactionStatus` after which the nonce of the transaction blocks its lane. -/
def TransactionStatusResult.blocks (status : TransactionStatusResult)
    (receipt : Option ActionReceipt) :
    Bool :=
  status.status = .reorged || status.status = .submissionUnknown || status.status = .failed ||
    (status.bestChainStatus = some .included && status.finalized != some true) ||
    receipt.any fun receipt => receipt.status ≠ .applied

/-- The answers of `transactionStatus` that say that the action was not applied. -/
def TransactionStatusResult.reportsFailure (status : TransactionStatusResult)
    (receipt : Option ActionReceipt) : Bool :=
  status.status = .failed || receipt.any fun receipt => receipt.status ≠ .applied

/-- Whatever counts as a failure blocks the lane. -/
theorem TransactionStatusResult.blocks_of_reportsFailure (status : TransactionStatusResult)
    {receipt : Option ActionReceipt} (h : status.reportsFailure receipt = true) :
    status.blocks receipt = true := by
  simp only [reportsFailure, blocks, Bool.or_eq_true] at h ⊢
  exact h.imp (fun hfailed => .inl (.inr hfailed)) id

/-- How a submission ended. -/
inductive Outcome where
  | accepted (transactionId : Bytes)
  | ambiguous
  | rejected
  /-- history: accepted, and reported since as failed; the client does not keep this -/
  | failed
deriving DecidableEq

/-- An error that is no definite rejection leaves open what happened. -/
def Outcome.ofError (error : SubmissionError) : Outcome :=
  if isDefiniteSubmissionRejection error then .rejected else .ambiguous

/-- The outcome of a submission after the transaction was reported as failed. -/
def Outcome.report (transactionId : Bytes) : Outcome → Outcome
  | .accepted taken => if taken = transactionId then .failed else .accepted taken
  | outcome => outcome

/-! ## Maps of nonces -/

variable {Lane : Type} [DecidableEq Lane]

/-- `if (blocked === undefined || nonce < blocked) set(lane, nonce)` -/
def lowerBlock (blocked : Lane → Option ℕ) (lane : Lane) (nonce : ℕ) : Lane → Option ℕ :=
  if (blocked lane).all (nonce < ·) then update blocked lane (some nonce) else blocked

/-- `if (next.get(lane) === nonce + 1n) next.delete(lane)` -/
def forgetLast (next : Lane → Option ℕ) (lane : Lane) (nonce : ℕ) : Lane → Option ℕ :=
  if next lane = some (nonce + 1) then update next lane none else next

/-- The larger of the two, the chain nonce when the client has none of its own. -/
def chooseNonce (localNonce : Option ℕ) (chainNonce : ℕ) : ℕ :=
  match localNonce with
  | none => chainNonce
  | some localNonce => if localNonce < chainNonce then chainNonce else localNonce

/-- The transactions of a lane below a chain nonce are forgotten. -/
def forgetBelow (transactions : Bytes → Option (Lane × ℕ)) (lane : Lane) (chainNonce : ℕ) :
    Bytes → Option (Lane × ℕ) := fun transactionId =>
  (transactions transactionId).filter fun pending => !(pending.1 = lane && pending.2 < chainNonce)

/-- `if (tails.get(lane) === call) tails.delete(lane)` -/
def dropTail (tails : Lane → Option ℕ) (lane : Lane) (call : ℕ) : Lane → Option ℕ :=
  if tails lane = some call then update tails lane none else tails

/-! ## The wallet lanes -/

/-- Where a call of `submitAction` waits. -/
inductive WalletCall (Lane : Type) where
  | queued (signerKey : Lane) (previous : Option ℕ)
  | readingContext (signerKey : Lane)
  | readingNonce (signerKey : Lane) (localNonce : Option ℕ)
  | signing (signerKey : Lane) (nonce : ℕ)
  | reporting (signerKey : Lane) (nonce : ℕ) (actionHash : Bytes)
  | submitting (signerKey : Lane) (nonce : ℕ) (actionHash : Bytes)
  | ended (signerKey : Lane) (nonce : ℕ) (outcome : Outcome)
  /-- it has thrown before it sent anything -/
  | failed

/-- Where the call stands with the lock of `reserveWalletNonce`. -/
def WalletCall.standing : WalletCall Lane → Tails.Standing Lane
  | .queued signerKey previous => .waiting signerKey previous
  | .readingContext signerKey | .readingNonce signerKey _ => .holding signerKey
  | _ => .released

/-- The call does not hold its lane any more. -/
def WalletCall.hasReleased : WalletCall Lane → Bool
  | .queued .. | .readingContext .. | .readingNonce .. => false
  | _ => true

/-- History: the call after the transaction was reported as failed. -/
def WalletCall.report (transactionId : Bytes) : WalletCall Lane → WalletCall Lane
  | .ended signerKey nonce outcome => .ended signerKey nonce (outcome.report transactionId)
  | call => call

/-- The lanes of wallet actions, one for each signer. -/
structure WalletLanes (Lane : Type) where
  nextNonces : Lane → Option ℕ
  nonceTails : Lane → Option ℕ
  walletTransactionNonces : Bytes → Option (Lane × ℕ)
  walletBlockedNonces : Lane → Option ℕ
  calls : List (WalletCall Lane)
  /-- history: the chain nonce that was read last; the client does not keep it -/
  chainNonces : Lane → Option ℕ

/-- What happens to the lanes: calls come, and what they wait for is answered. -/
inductive WalletEvent (Lane : Type) where
  /-- a call of `submitAction` comes to `reserveWalletNonce` -/
  | enter (signerKey : Lane)
  /-- the previous call has released the lane -/
  | proceed (call : ℕ)
  /-- `finalizedContext` -/
  | context (call : ℕ) (answered : Bool)
  /-- `readNonce` -/
  | chainNonce (call : ℕ) (answer : Option ℕ)
  /-- the action is built and signed, or the wallet refuses -/
  | signature (call : ℕ) (actionHash : Option Bytes)
  /-- the callback `onSigned` -/
  | reported (call : ℕ) (returned : Bool)
  /-- `submitTransaction` -/
  | submitted (call : ℕ) (answer : Except SubmissionError Bytes)

namespace WalletLanes

/-- A client that has just been made. -/
def initial : WalletLanes Lane :=
  ⟨fun _ => none, fun _ => none, fun _ => none, fun _ => none, [], fun _ => none⟩

/-- The promise a call waits for is resolved. -/
def resolved (w : WalletLanes Lane) (previous : Option ℕ) : Bool :=
  (previous.bind (w.calls[·]?)).all WalletCall.hasReleased

/-- The call is now at `phase`. -/
def goto (w : WalletLanes Lane) (call : ℕ) (phase : WalletCall Lane) : WalletLanes Lane :=
  { w with calls := w.calls.set call phase }

/-- The end of `reserveWalletNonce`, by return or exception. -/
def leave (w : WalletLanes Lane) (call : ℕ) (signerKey : Lane) (phase : WalletCall Lane) :
    WalletLanes Lane :=
  { w.goto call phase with nonceTails := dropTail w.nonceTails signerKey call }

/-- The next nonce is set before the lane is left. -/
def reserve (w : WalletLanes Lane) (call : ℕ) (signerKey : Lane) (nonce : ℕ) : WalletLanes Lane :=
  { w with nextNonces := update w.nextNonces signerKey (some (nonce + 1)) }.leave call signerKey
    (.signing signerKey nonce)

/-- A blocked lane is taken up again once the chain has passed the blocked nonce. The client then
goes by the chain nonce alone. -/
def reconcile (w : WalletLanes Lane) (signerKey : Lane) (localNonce : Option ℕ) (chainNonce : ℕ) :
    Option (WalletLanes Lane × Option ℕ) :=
  match w.walletBlockedNonces signerKey with
  | none => some (w, localNonce)
  | some blockedNonce =>
    if chainNonce ≤ blockedNonce then none
    else some
      ({ w with
        walletBlockedNonces := update w.walletBlockedNonces signerKey none
        walletTransactionNonces := forgetBelow w.walletTransactionNonces signerKey chainNonce
        nextNonces := update w.nextNonces signerKey none }, none)

/-- What a client does when something happens. -/
def step (w : WalletLanes Lane) : WalletEvent Lane → WalletLanes Lane
  | .enter signerKey =>
    { w with
      calls := w.calls ++ [.queued signerKey (w.nonceTails signerKey)]
      nonceTails := update w.nonceTails signerKey (some w.calls.length) }
  | .proceed call =>
    match w.calls[call]? with
    | some (.queued signerKey previous) =>
      if w.resolved previous then w.goto call (.readingContext signerKey) else w
    | _ => w
  | .context call answered =>
    match w.calls[call]? with
    | some (.readingContext signerKey) =>
      if answered then
        match w.nextNonces signerKey, w.walletBlockedNonces signerKey with
        -- the chain is not read
        | some localNonce, none => w.reserve call signerKey localNonce
        | localNonce, _ => w.goto call (.readingNonce signerKey localNonce)
      else w.leave call signerKey .failed
    | _ => w
  | .chainNonce call answer =>
    match w.calls[call]? with
    | some (.readingNonce signerKey localNonce) =>
      match answer with
      | none => w.leave call signerKey .failed
      | some chainNonce =>
        let w := { w with chainNonces := update w.chainNonces signerKey (some chainNonce) }
        match w.reconcile signerKey localNonce chainNonce with
        | none => w.leave call signerKey .failed
        | some (w, localNonce) => w.reserve call signerKey (chooseNonce localNonce chainNonce)
    | _ => w
  | .signature call answer =>
    match w.calls[call]? with
    | some (.signing signerKey nonce) =>
      match answer with
      | some actionHash => w.goto call (.reporting signerKey nonce actionHash)
      | none => w.goto call .failed
    | _ => w
  | .reported call returned =>
    match w.calls[call]? with
    | some (.reporting signerKey nonce actionHash) =>
      if returned then w.goto call (.submitting signerKey nonce actionHash)
      else if w.nextNonces signerKey = some (nonce + 1) then
        { w.goto call .failed with nextNonces := update w.nextNonces signerKey none }
      else { w.goto call
        .failed with walletBlockedNonces := lowerBlock w.walletBlockedNonces signerKey nonce }
    | _ => w
  | .submitted call answer =>
    match w.calls[call]? with
    | some (.submitting signerKey nonce _) =>
      match answer with
      | .ok transactionId =>
        { w.goto call (.ended signerKey nonce (.accepted transactionId)) with
          walletTransactionNonces :=
          update w.walletTransactionNonces transactionId (some (signerKey, nonce)) }
      | .error error =>
        let w := w.goto call (.ended signerKey nonce (.ofError error))
        if isDefiniteSubmissionRejection error then
          { w with nextNonces := forgetLast w.nextNonces signerKey nonce }
        else { w with walletBlockedNonces := lowerBlock w.walletBlockedNonces signerKey nonce }
    | _ => w

/-- The part of `transactionStatus` about wallet transactions, after the answer. -/
def transactionStatus (w : WalletLanes Lane) (actionHash : Option Bytes) (transactionId : Bytes)
    (status : TransactionStatusResult) : WalletLanes Lane :=
  match w.walletTransactionNonces transactionId with
  | none => w
  | some (signerKey, nonce) =>
    let receipt := status.receipt actionHash
    if status.blocks receipt then
      { w with walletBlockedNonces := lowerBlock w.walletBlockedNonces signerKey nonce }
    else if status.finalized = some true && receipt.any fun receipt =>
      receipt.status = .applied then
      { w with walletTransactionNonces := update w.walletTransactionNonces transactionId none }
    else w

/-- History: what becomes of the calls when a transaction is reported as failed. -/
def report (w : WalletLanes Lane) (transactionId : Bytes) (failed : Bool) : WalletLanes Lane :=
  if failed then { w with calls := w.calls.map (WalletCall.report transactionId) } else w

/-- The nonce that a step reserves. -/
def reserves (w : WalletLanes Lane) : WalletEvent Lane → Option (Lane × ℕ)
  | .context call true =>
    match w.calls[call]? with
    | some (.readingContext signerKey) =>
      match w.nextNonces signerKey, w.walletBlockedNonces signerKey with
      | some localNonce, none => some (signerKey, localNonce)
      | _, _ => none
    | _ => none
  | .chainNonce call (some chainNonce) =>
    match w.calls[call]? with
    | some (.readingNonce signerKey localNonce) =>
      (w.reconcile signerKey localNonce chainNonce).map fun (_, localNonce) =>
        (signerKey, chooseNonce localNonce chainNonce)
    | _ => none
  | _ => none

/-- The chain nonce that a step reads. -/
def reads (w : WalletLanes Lane) : WalletEvent Lane → Option (Lane × ℕ)
  | .chainNonce call (some chainNonce) =>
    match w.calls[call]? with
    | some (.readingNonce signerKey _) => some (signerKey, chainNonce)
    | _ => none
  | _ => none

end WalletLanes

/-! ## The ownership lanes -/

/-- The objects that stand for a reserved nonce, numbered in the order in which they were made. -/
inductive Reservation where
  | prepared (action : ℕ)
  | signed (action : ℕ)
deriving DecidableEq

/-- A nonce of an ownership lane, with the hash of the action once it is signed. -/
structure PreparedOwnershipActionData (Lane : Type) where
  nonceLane : Lane
  nonce : ℕ
deriving DecidableEq

/-- A signed action still holds its nonce. -/
structure SignedOwnershipActionData (Lane : Type) extends PreparedOwnershipActionData Lane where
  actionHash : Bytes
deriving DecidableEq

/-- Where a call of `prepareOwnershipAction` waits. The reads it makes once it has the lane touch
nothing of the client until the last of them is answered. -/
inductive PrepareCall (Lane : Type) where
  | queued (nonceLane : Lane) (previous : Option ℕ)
  | reading (nonceLane : Lane)
  | ended

/-- Where a call of `submitSignedOwnershipAction` waits. -/
inductive SubmitCall (Lane : Type) where
  | reporting (signed : ℕ) (data : SignedOwnershipActionData Lane)
  | submitting (signed : ℕ) (data : SignedOwnershipActionData Lane)
  | ended (nonceLane : Lane) (nonce : ℕ) (outcome : Outcome)
  /-- it has thrown before it sent anything -/
  | failed
deriving DecidableEq

/-- History: the submission after the transaction was reported as failed. -/
def SubmitCall.report (transactionId : Bytes) : SubmitCall Lane → SubmitCall Lane
  | .ended nonceLane nonce outcome => .ended nonceLane nonce (outcome.report transactionId)
  | call => call

/-- The nonce of a submission that was accepted under the transaction. -/
def SubmitCall.acceptedAs (transactionId : Bytes) : SubmitCall Lane → Option (Lane × ℕ)
  | .ended nonceLane nonce outcome =>
    if outcome = .accepted transactionId then some (nonceLane, nonce) else none
  | _ => none

/-- The lanes of ownership actions, and the objects that hold their nonces. -/
structure OwnershipLanes (Lane : Type) where
  nextOwnershipNonces : Lane → Option ℕ
  ownershipTails : Lane → Option ℕ
  ownershipReservations : Lane → Std.ExtTreeMap ℕ Reservation
  ownershipBlockedNonces : Lane → Option ℕ
  ownershipTransactionNonces : Bytes → Option (Lane × ℕ)
  preparedOwnershipActions : List (Option (PreparedOwnershipActionData Lane))
  signedOwnershipActions : List (Option (SignedOwnershipActionData Lane))
  prepareCalls : List (PrepareCall Lane)
  /-- wallet requests of `signPreparedOwnershipAction` that are open -/
  signCalls : List (Option (ℕ × PreparedOwnershipActionData Lane))
  submitCalls : List (SubmitCall Lane)
  /-- history: the chain nonce that was read last; the client does not keep it -/
  chainNonces : Lane → Option ℕ
  /-- history: the nonces that were given back or whose transaction was reported as failed -/
  rewound : List (Lane × ℕ)

/-- What happens to the lanes of ownership actions. -/
inductive OwnershipEvent (Lane : Type) where
  /-- a call of `prepareOwnershipAction` comes to its lane -/
  | prepare (nonceLane : Lane)
  /-- the previous call has released the lane -/
  | proceed (call : ℕ)
  /-- the reads at the best context: the nonce on the chain, and whether the action can be built -/
  | chainNonce (call : ℕ) (answer : Option (ℕ × Bool))
  /-- `signPreparedOwnershipAction`: the wallet opens a request or throws -/
  | sign (prepared : ℕ) (opened : Bool)
  /-- the wallet signs, or refuses, or the proof has a wrong length -/
  | signature (call : ℕ) (actionHash : Option Bytes)
  | abandonPrepared (prepared : ℕ)
  /-- `submitSignedOwnershipAction` -/
  | submit (signed : ℕ)
  /-- the callback `onSigned` -/
  | reported (call : ℕ) (returned : Bool)
  /-- `submitTransaction` -/
  | submitted (call : ℕ) (answer : Except SubmissionError Bytes)
  | abandonSigned (signed : ℕ)

/-- The action whose nonce is taken can be built. -/
def OwnershipEvent.builds : OwnershipEvent Lane → Bool
  | .chainNonce _ (some (_, built)) => built
  | _ => true

namespace OwnershipLanes

def initial : OwnershipLanes Lane where
  nextOwnershipNonces := fun _ => none
  ownershipTails := fun _ => none
  ownershipReservations := fun _ => ∅
  ownershipBlockedNonces := fun _ => none
  ownershipTransactionNonces := fun _ => none
  preparedOwnershipActions := []
  signedOwnershipActions := []
  prepareCalls := []
  signCalls := []
  submitCalls := []
  chainNonces := fun _ => none
  rewound := []

/-- Who holds a nonce. -/
def ownershipReservation (s : OwnershipLanes Lane) (nonceLane : Lane) (nonce : ℕ) :
    Option Reservation :=
  (s.ownershipReservations nonceLane)[nonce]?

def setOwnershipReservation (s : OwnershipLanes Lane) (nonceLane : Lane) (nonce : ℕ)
    (reservation : Reservation) : OwnershipLanes Lane :=
  { s with
    ownershipReservations := update s.ownershipReservations nonceLane
      ((s.ownershipReservations nonceLane).insert nonce reservation) }

/-- A nonce is only given back by its holder. -/
def deleteOwnershipReservation (s : OwnershipLanes Lane) (nonceLane : Lane) (nonce : ℕ)
    (expected : Reservation) : OwnershipLanes Lane :=
  if s.ownershipReservation nonceLane nonce = some expected then
    { s with
      ownershipReservations := update s.ownershipReservations nonceLane
        ((s.ownershipReservations nonceLane).erase nonce) }
  else s

/-- The lane has gone on after the nonce. -/
def hasHigherReservation (s : OwnershipLanes Lane) (nonceLane : Lane) (nonce : ℕ) : Bool :=
  ((s.nextOwnershipNonces nonceLane).any fun next => nonce + 1 < next) ||
    (s.ownershipReservations nonceLane).keys.any fun reservedNonce => nonce < reservedNonce

/-- The lane forgets the nonce if nothing later was taken, and is blocked at it otherwise. -/
def rewindOwnershipNonce (s : OwnershipLanes Lane) (nonceLane : Lane) (nonce : ℕ) :
    OwnershipLanes Lane :=
  let s := { s with rewound := (nonceLane, nonce) :: s.rewound }
  if s.hasHigherReservation nonceLane nonce then
    { s with ownershipBlockedNonces := lowerBlock s.ownershipBlockedNonces nonceLane nonce }
  else { s with nextOwnershipNonces := forgetLast s.nextOwnershipNonces nonceLane nonce }

/-- The nonce of an object is given back if the object still holds it. -/
def release (s : OwnershipLanes Lane) (data : PreparedOwnershipActionData Lane)
    (holder : Reservation) :
    OwnershipLanes Lane :=
  if s.ownershipReservation data.nonceLane data.nonce = some holder then
    (s.deleteOwnershipReservation data.nonceLane data.nonce holder).rewindOwnershipNonce
      data.nonceLane data.nonce
  else s

def abandonPreparedOwnershipAction (s : OwnershipLanes Lane) (prepared : ℕ) : OwnershipLanes Lane :=
  match s.preparedOwnershipActions[prepared]? with
  | some (some data) =>
    { s with preparedOwnershipActions := s.preparedOwnershipActions.set prepared none }.release data
      (.prepared prepared)
  | _ => s

def abandonSignedOwnershipAction (s : OwnershipLanes Lane) (signed : ℕ) : OwnershipLanes Lane :=
  match s.signedOwnershipActions[signed]? with
  | some (some data) =>
    { s with signedOwnershipActions := s.signedOwnershipActions.set signed none }.release
      data.toPreparedOwnershipActionData (.signed signed)
  | _ => s

/-- A blocked lane is taken up again once the chain has passed the blocked nonce. Its next nonce
stays. -/
def reconcile (s : OwnershipLanes Lane) (nonceLane : Lane) (chainNonce : ℕ) :
    Option (OwnershipLanes Lane) :=
  match s.ownershipBlockedNonces nonceLane with
  | none => some s
  | some blockedNonce =>
    if chainNonce ≤ blockedNonce then none
    else some
      { s with
        ownershipBlockedNonces := update s.ownershipBlockedNonces nonceLane none
        ownershipReservations := update s.ownershipReservations nonceLane
          ((s.ownershipReservations nonceLane).filter fun reservedNonce _ =>
            !(reservedNonce < chainNonce))
        ownershipTransactionNonces :=
        forgetBelow s.ownershipTransactionNonces nonceLane chainNonce }

/-- The end of `prepareOwnershipAction`, by return or exception. -/
def leave (s : OwnershipLanes Lane) (call : ℕ) (nonceLane : Lane) : OwnershipLanes Lane :=
  { s with
    prepareCalls := s.prepareCalls.set call .ended
    ownershipTails := dropTail s.ownershipTails nonceLane call }

/-- The next nonce of the lane is taken; an action that cannot be built leaves nothing else
behind. -/
def reserve (s : OwnershipLanes Lane) (nonceLane : Lane) (nonce : ℕ) (built : Bool) :
    OwnershipLanes Lane :=
  let s := { s with
    nextOwnershipNonces := update s.nextOwnershipNonces nonceLane (some (nonce + 1)) }
  if built then
    let prepared := s.preparedOwnershipActions.length
    let s : OwnershipLanes Lane :=
      { s with preparedOwnershipActions := s.preparedOwnershipActions ++ [some ⟨nonceLane, nonce⟩] }
    s.setOwnershipReservation nonceLane nonce (.prepared prepared)
  else s

/-- What `prepareOwnershipAction` does once it has read the chain. -/
def takeNonce (s : OwnershipLanes Lane) (call : ℕ) (nonceLane : Lane) (chainNonce : ℕ)
    (built : Bool) :
    OwnershipLanes Lane :=
  let s := { s with chainNonces := update s.chainNonces nonceLane (some chainNonce) }
  match s.reconcile nonceLane chainNonce with
  | none => s.leave call nonceLane
  | some s =>
    (s.reserve nonceLane (chooseNonce (s.nextOwnershipNonces nonceLane) chainNonce) built).leave
      call nonceLane

/-- The wallet has signed: the signed action takes the place of the prepared one, unless that was
abandoned in the meantime. -/
def recordSignature (s : OwnershipLanes Lane) (prepared : ℕ)
    (data : PreparedOwnershipActionData Lane) (actionHash : Bytes) : OwnershipLanes Lane :=
  let s := { s with preparedOwnershipActions := s.preparedOwnershipActions.set prepared none }
  if s.ownershipReservation data.nonceLane data.nonce = some (.prepared prepared) then
    let signed := s.signedOwnershipActions.length
    let s : OwnershipLanes Lane :=
      { s with signedOwnershipActions := s.signedOwnershipActions ++ [some ⟨data, actionHash⟩] }
    s.setOwnershipReservation data.nonceLane data.nonce (.signed signed)
  else s

/-- `submitSignedOwnershipAction`, up to its request. -/
def submitSignedOwnershipAction (s : OwnershipLanes Lane) (signed : ℕ) : OwnershipLanes Lane :=
  match s.signedOwnershipActions[signed]? with
  | some (some data) =>
    if s.ownershipReservation data.nonceLane data.nonce = some (.signed signed) then
      if (s.ownershipBlockedNonces data.nonceLane).any fun blockedNonce => blockedNonce ≤
        data.nonce then
        s.abandonSignedOwnershipAction signed
      else { s with submitCalls := s.submitCalls ++ [.reporting signed data] }
    else s
  | _ => s

/-- The end of a submission. Only a definite rejection gives the nonce back. -/
def endSubmission (s : OwnershipLanes Lane) (signed : ℕ) (data : SignedOwnershipActionData Lane)
    (answer : Except SubmissionError Bytes) : OwnershipLanes Lane :=
  let holds := s.ownershipReservation data.nonceLane data.nonce = some (.signed signed)
  let s := { s with signedOwnershipActions := s.signedOwnershipActions.set signed none }
  match answer with
  | .ok transactionId =>
    { s with
      ownershipTransactionNonces :=
        update s.ownershipTransactionNonces transactionId (some (data.nonceLane, data.nonce))
      }.deleteOwnershipReservation data.nonceLane data.nonce (.signed signed)
  | .error error =>
    if isDefiniteSubmissionRejection error ∧ holds then
      s.release data.toPreparedOwnershipActionData (.signed signed)
    else if error = .other then
      { s with ownershipBlockedNonces :=
        lowerBlock s.ownershipBlockedNonces data.nonceLane data.nonce }
    else s

def outcomeOf : Except SubmissionError Bytes → Outcome
  | .ok transactionId => .accepted transactionId
  | .error error => .ofError error

/-- What a client does when something happens to its ownership actions. -/
def step (s : OwnershipLanes Lane) : OwnershipEvent Lane → OwnershipLanes Lane
  | .prepare nonceLane =>
    { s with
      prepareCalls := s.prepareCalls ++ [.queued nonceLane (s.ownershipTails nonceLane)]
      ownershipTails := update s.ownershipTails nonceLane (some s.prepareCalls.length) }
  | .proceed call =>
    match s.prepareCalls[call]? with
    | some (.queued nonceLane previous) =>
      if (previous.bind (s.prepareCalls[·]?)).all (· matches .ended) then
        { s with prepareCalls := s.prepareCalls.set call (.reading nonceLane) }
      else s
    | _ => s
  | .chainNonce call answer =>
    match s.prepareCalls[call]? with
    | some (.reading nonceLane) =>
      match answer with
      | none => s.leave call nonceLane
      | some (chainNonce, built) => s.takeNonce call nonceLane chainNonce built
    | _ => s
  | .sign prepared opened =>
    match s.preparedOwnershipActions[prepared]? with
    | some (some data) =>
      if s.ownershipReservation data.nonceLane data.nonce = some (.prepared prepared) then
        if opened then { s with signCalls := s.signCalls ++ [some (prepared, data)] }
        else s.abandonPreparedOwnershipAction prepared
      else s
    | _ => s
  | .signature call answer =>
    match s.signCalls[call]? with
    | some (some (prepared, data)) =>
      let s := { s with signCalls := s.signCalls.set call none }
      match answer with
      | some actionHash => s.recordSignature prepared data actionHash
      | none =>
        { s with preparedOwnershipActions := s.preparedOwnershipActions.set prepared none }.release
          data (.prepared prepared)
    | _ => s
  | .abandonPrepared prepared => s.abandonPreparedOwnershipAction prepared
  | .submit signed => s.submitSignedOwnershipAction signed
  | .reported call returned =>
    match s.submitCalls[call]? with
    | some (.reporting signed data) =>
      if returned then { s with submitCalls := s.submitCalls.set call (.submitting signed data) }
      else
        { s with submitCalls := s.submitCalls.set call .failed }.abandonSignedOwnershipAction signed
    | _ => s
  | .submitted call answer =>
    match s.submitCalls[call]? with
    | some (.submitting signed data) =>
      { s with
        submitCalls := s.submitCalls.set call (.ended data.nonceLane data.nonce (outcomeOf answer))
        }.endSubmission signed data answer
    | _ => s
  | .abandonSigned signed => s.abandonSignedOwnershipAction signed

/-- The part of `transactionStatus` about ownership transactions, after the answer. -/
def transactionStatus (s : OwnershipLanes Lane) (actionHash : Option Bytes) (transactionId : Bytes)
    (status : TransactionStatusResult) : OwnershipLanes Lane :=
  match s.ownershipTransactionNonces transactionId with
  | none => s
  | some (nonceLane, nonce) =>
    if status.blocks (status.receipt actionHash) then
      { s with ownershipBlockedNonces := lowerBlock s.ownershipBlockedNonces nonceLane nonce }
    else if status.finalized = some true then
      { s with ownershipTransactionNonces := update s.ownershipTransactionNonces transactionId none
        }
    else s

/-- History: what becomes of the submissions when a transaction is reported as failed. -/
def report (s : OwnershipLanes Lane) (transactionId : Bytes) (failed : Bool) :
    OwnershipLanes Lane :=
  if failed then
    { s with
      submitCalls := s.submitCalls.map (SubmitCall.report transactionId)
      rewound := s.submitCalls.filterMap (SubmitCall.acceptedAs transactionId) ++ s.rewound }
  else s

/-- The nonce that a step takes. -/
def reserves (s : OwnershipLanes Lane) : OwnershipEvent Lane → Option (Lane × ℕ)
  | .chainNonce call (some (chainNonce, _)) =>
    match s.prepareCalls[call]? with
    | some (.reading nonceLane) =>
      (s.reconcile nonceLane chainNonce).map fun s =>
        (nonceLane, chooseNonce (s.nextOwnershipNonces nonceLane) chainNonce)
    | _ => none
  | _ => none

/-- The nonce that a step sends to the backend. -/
def sends (s : OwnershipLanes Lane) : OwnershipEvent Lane → Option (Lane × ℕ)
  | .reported call true =>
    match s.submitCalls[call]? with
    | some (.reporting _ data) => some (data.nonceLane, data.nonce)
    | _ => none
  | _ => none

/-- The chain nonce that a step reads. -/
def reads (s : OwnershipLanes Lane) : OwnershipEvent Lane → Option (Lane × ℕ)
  | .chainNonce call (some (chainNonce, _)) =>
    match s.prepareCalls[call]? with
    | some (.reading nonceLane) => some (nonceLane, chainNonce)
    | _ => none
  | _ => none

end OwnershipLanes

/-! ## The client -/

/-- A client: both kinds of lanes, and the actions of its transactions. -/
structure Lanes (Lane : Type) where
  actionHashes : Bytes → Option Bytes
  wallet : WalletLanes Lane
  ownership : OwnershipLanes Lane

/-- What happens to a client. -/
inductive LaneEvent (Lane : Type) where
  | wallet (event : WalletEvent Lane)
  | ownership (event : OwnershipEvent Lane)
  /-- an answer to `transactionStatus` -/
  | status (transactionId : Bytes) (status : TransactionStatusResult)

namespace Lanes

def initial : Lanes Lane := ⟨fun _ => none, .initial, .initial⟩

/-- The hash that is remembered for a transaction that the backend has taken. -/
def takenHash (s : Lanes Lane) : LaneEvent Lane → Option (Bytes × Bytes)
  | .wallet (.submitted call (.ok transactionId)) =>
    match s.wallet.calls[call]? with
    | some (.submitting _ _ actionHash) => some (transactionId, actionHash)
    | _ => none
  | .ownership (.submitted call (.ok transactionId)) =>
    match s.ownership.submitCalls[call]? with
    | some (.submitting _ data) => some (transactionId, data.actionHash)
    | _ => none
  | _ => none

def step (s : Lanes Lane) (event : LaneEvent Lane) : Lanes Lane :=
  let s' := match s.takenHash event with
    | some (transactionId, actionHash) =>
      { s with actionHashes := update s.actionHashes transactionId (some actionHash) }
    | none => s
  match event with
  | .wallet event => { s' with wallet := s.wallet.step event }
  | .ownership event => { s' with ownership := s.ownership.step event }
  | .status transactionId status =>
    let actionHash := s.actionHashes transactionId
    let failed := status.reportsFailure (status.receipt actionHash)
    { s with
      wallet := (s.wallet.transactionStatus actionHash transactionId
        status).report transactionId failed
      ownership :=
        (s.ownership.transactionStatus actionHash transactionId status).report
          transactionId failed }

end Lanes

end JamScript.Client
