import JamScript.Client.OwnershipLane

/-!
# What the nonce lanes guarantee

Three properties of the lanes of one client, over every sequence of calls, answers and failures.

* A nonce that was sent and not definitely rejected is not reserved again
(`sent_nonces_not_reserved`), as long as a lane that goes by the chain finds that the chain has
passed all that is outstanding on it. The lanes do not see to that: giving back the last nonce of a
lane makes it forget its next nonce, and the next action then gets the nonce on the chain, which may
be under way.
* Between the last reading of the chain and a nonce that is reserved every nonce is reserved or
unresolved (`reservations_leave_no_gap`), as long as no nonce is lost. A wallet that refuses to sign
loses one.
* A submission that fails without an answer stops its lane (`ambiguous_submission_stops_lane`). One
that fails with an answer that is not a definite rejection does not.
-/

namespace JamScript.Client

open Codec Function Runs

variable {Lane : Type} [DecidableEq Lane]

namespace Lanes

variable {s : Lanes Lane}

theorem wallet_step (event : WalletEvent Lane) :
    (s.step (.wallet event)).wallet = s.wallet.step event := rfl

theorem ownership_step (event : OwnershipEvent Lane) :
    (s.step (.ownership event)).ownership = s.ownership.step event := rfl

theorem ownership_step_wallet (event : WalletEvent Lane) :
    (s.step (.wallet event)).ownership = s.ownership := by
  simp only [step]
  split <;> rfl

theorem wallet_step_ownership (event : OwnershipEvent Lane) :
    (s.step (.ownership event)).wallet = s.wallet := by
  simp only [step]
  split <;> rfl

/-- An invariant of each kind of lanes is one of the client. -/
theorem keep_of_lanes {W : WalletLanes Lane → Prop} {O : OwnershipLanes Lane → Prop}
    {P : Lanes Lane → LaneEvent Lane → Prop}
    (hwallet : ∀ s event, W s.wallet → P s (.wallet event) → W (s.wallet.step event))
    (hownership : ∀ s event, O s.ownership → P s (.ownership event) → O (s.ownership.step event))
    (hwalletStatus : ∀ s transactionId status, W s.wallet → P s (.status transactionId status) →
      W (s.step (.status transactionId status)).wallet)
    (hownershipStatus : ∀ s transactionId status, O s.ownership →
      P s (.status transactionId status) →
      O (s.step (.status transactionId status)).ownership)
    (s : Lanes Lane) (event : LaneEvent Lane) (h : W s.wallet ∧ O s.ownership) (hP : P s event) :
    W (s.step event).wallet ∧ O (s.step event).ownership := by
  cases event with
  | wallet event =>
    rw [wallet_step, ownership_step_wallet]
    exact ⟨hwallet s event h.1 hP, h.2⟩
  | ownership event =>
    rw [ownership_step, wallet_step_ownership]
    exact ⟨h.1, hownership s event h.2 hP⟩
  | status transactionId status =>
    exact ⟨hwalletStatus s _ _ h.1 hP, hownershipStatus s _ _ h.2 hP⟩

/-! ## No nonce twice -/

/-- A lane that goes by the chain finds that the chain has passed all that is outstanding on it. -/
def RestartsClear (s : Lanes Lane) : LaneEvent Lane → Prop
  | .wallet event => s.wallet.RestartsClear event
  | .ownership event => s.ownership.RestartsClear event
  | .status .. => True

instance (s : Lanes Lane) : (event : LaneEvent Lane) → Decidable (s.RestartsClear event)
  | .wallet event => inferInstanceAs (Decidable (s.wallet.RestartsClear event))
  | .ownership event => inferInstanceAs (Decidable (s.ownership.RestartsClear event))
  | .status .. => .isTrue trivial

/-- No nonce is reserved that was sent and not definitely rejected. -/
def ReservesUnsent (s : Lanes Lane) : LaneEvent Lane → Prop
  | .wallet event => ∀ taken, s.wallet.reserves event = some taken → ¬ s.wallet.Sent taken
  | .ownership event => ∀ taken, s.ownership.reserves event = some taken → ¬ s.ownership.Sent taken
  | .status .. => True

end Lanes

/-- In every run in which lanes that go by the chain find it past all that is outstanding, a nonce
that was sent and not definitely rejected is not reserved again. -/
theorem sent_nonces_not_reserved (events : List (LaneEvent Lane))
    (hclear : Throughout Lanes.step Lanes.RestartsClear (.initial : Lanes Lane) events) :
    Throughout Lanes.step Lanes.ReservesUnsent (.initial : Lanes Lane) events := by
  refine hclear.of_invariant
    (I := fun s => (s.wallet.Locked ∧ s.wallet.Ahead) ∧ s.ownership.Ahead) ?_ ?_ ?_
  · refine Lanes.keep_of_lanes (W := fun w => w.Locked ∧ w.Ahead)
      (O := OwnershipLanes.Ahead) ?_ ?_ ?_ ?_
    · rintro s event ⟨hlocked, hahead⟩ hevent
      exact ⟨hlocked.step event, hahead.step hlocked hevent⟩
    · intro s event hahead hevent
      exact hahead.step hevent
    · rintro s transactionId status ⟨hlocked, hahead⟩ -
      exact ⟨hlocked.status .., hahead.status hlocked ..⟩
    · intro s transactionId status hahead _
      exact (hahead.keeps (s.ownership.transactionStatus_spec ..)).report ..
  · rintro s event ⟨⟨hlocked, hwallet⟩, hownership⟩ hevent
    cases event with
    | wallet event =>
      exact fun taken htaken hsent => hwallet.reserves_fresh hlocked hevent htaken hsent.outstanding
    | ownership event =>
      exact fun taken htaken hsent => hownership.reserves_fresh hevent htaken hsent.outstanding
    | status transactionId status => trivial
  · refine ⟨⟨.initial, ?_⟩, ?_⟩
    · intro key next nonce hnext
      cases hnext
    · intro lane next nonce hnext
      cases hnext

/-! A wallet action and an ownership action are sent; the next action of each lane is given the next
nonce, though the chain has not moved. -/

def alice : Bytes := [0xa1]

/-- The first wallet action is sent. -/
def walletSends : List (LaneEvent Bytes) :=
  [.wallet (.enter alice), .wallet (.proceed 0), .wallet (.context 0 true),
    .wallet (.chainNonce 0 (some 0)),
    .wallet (.signature 0 (some [1])), .wallet (.reported 0 true), .wallet (.submitted 0 (.ok [7]))]

/-- A second one comes and has its turn. -/
def walletComesAgain (call : ℕ) : List (LaneEvent Bytes) :=
  [.wallet (.enter alice), .wallet (.proceed call), .wallet (.context call true)]

/-- The first ownership action is sent. -/
def ownershipSends : List (LaneEvent Bytes) :=
  [.ownership (.prepare alice), .ownership (.proceed 0),
    .ownership (.chainNonce 0 (some (0, true))),
    .ownership (.sign 0 true), .ownership (.signature 0 (some [2])), .ownership (.submit 0),
    .ownership (.reported 0 true), .ownership (.submitted 0 (.ok [8]))]

def ownershipComesAgain (call : ℕ) : List (LaneEvent Bytes) :=
  [.ownership (.prepare alice), .ownership (.proceed call)]

def twoActionsEach : List (LaneEvent Bytes) :=
  walletSends ++ walletComesAgain 1 ++ ownershipSends ++ ownershipComesAgain 1 ++
    [.ownership (.chainNonce 1 (some (0, true)))]

theorem sent_nonces_not_reserved_twoActionsEach :
    Throughout Lanes.step Lanes.RestartsClear .initial twoActionsEach ∧
      Throughout Lanes.step Lanes.ReservesUnsent .initial twoActionsEach :=
  have hclear : Throughout Lanes.step Lanes.RestartsClear .initial twoActionsEach := by
    decide +kernel
  ⟨hclear, sent_nonces_not_reserved twoActionsEach hclear⟩

/-- In both lanes the second action is given up before it is sent. The lane then forgets that the
first nonce is under way, and hands it out again. -/
theorem nonce_under_way_reserved_again :
    let s := run Lanes.step .initial (walletSends ++ walletComesAgain 1 ++
      [.wallet (.signature 1 (some [3])), .wallet (.reported 1 false)] ++ walletComesAgain 2)
    let t := run Lanes.step .initial (ownershipSends ++ ownershipComesAgain 1 ++
      [.ownership (.chainNonce 1 (some (0, true))), .ownership (.abandonPrepared 1)] ++
      ownershipComesAgain 2)
    (s.wallet.reserves (.chainNonce 2 (some 0)) = some (alice, 0) ∧ s.wallet.Sent (alice, 0)) ∧
      t.ownership.reserves (.chainNonce 2 (some (0, true))) = some (alice, 0) ∧
      t.ownership.Sent (alice, 0) := by
  decide +kernel

/-! ## No gap -/

namespace Lanes

/-- Readings of the chain do not go back, no nonce is lost, and a failure is reported of a
transaction that the client keeps. -/
def LosesNothing (s : Lanes Lane) : LaneEvent Lane → Prop
  | .wallet event => s.wallet.LosesNothing event
  | .ownership event => s.ownership.LosesNothing event
  | .status transactionId status =>
    status.reportsFailure (status.receipt (s.actionHashes transactionId)) = true →
      s.wallet.ReportsKept transactionId ∧ s.ownership.ReportsKept transactionId

instance (s : Lanes Lane) : (event : LaneEvent Lane) → Decidable (s.LosesNothing event)
  | .wallet event => inferInstanceAs (Decidable (s.wallet.LosesNothing event))
  | .ownership event => inferInstanceAs (Decidable (s.ownership.LosesNothing event))
  | .status .. => inferInstanceAs (Decidable (_ → _ ∧ _))

/-- Whatever lies between the last reading of the chain and a nonce that is reserved is itself
reserved, or was sent and is unresolved: not definitely rejected, and not reported as failed. -/
def ReservesInOrder (s : Lanes Lane) : LaneEvent Lane → Prop
  | .wallet event =>
  ∀ signerKey nonce chainNonce other, s.wallet.reserves event = some (signerKey, nonce) →
      (s.wallet.step event).chainNonces signerKey = some chainNonce → chainNonce ≤ other →
      other < nonce →
      s.wallet.Unresolved (signerKey, other)
  | .ownership event => ∀ nonceLane nonce chainNonce other,
      s.ownership.reserves event = some (nonceLane, nonce) →
      (s.ownership.step event).chainNonces nonceLane = some chainNonce → chainNonce ≤ other →
      other < nonce →
      s.ownership.Reserved (nonceLane, other) ∨ s.ownership.Unresolved (nonceLane, other)
  | .status .. => True

/-- A lane that has gone past a nonce for which nobody answers any more is blocked there or
below. -/
def BlockedWherePassed (s : Lanes Lane) : Prop :=
  (∀ signerKey next chainNonce nonce, s.wallet.nextNonces signerKey = some next →
    s.wallet.chainNonces signerKey = some chainNonce → chainNonce ≤ nonce → nonce < next →
    s.wallet.Unresolved (signerKey, nonce) ∨
      ∃ blockedNonce ≤ nonce, s.wallet.walletBlockedNonces signerKey = some blockedNonce) ∧
  ∀ nonceLane next chainNonce nonce, s.ownership.nextOwnershipNonces nonceLane = some next →
    s.ownership.chainNonces nonceLane = some chainNonce → chainNonce ≤ nonce → nonce < next →
    (s.ownership.Reserved (nonceLane, nonce) ∨ s.ownership.Unresolved (nonceLane, nonce)) ∨
      ∃ blockedNonce ≤ nonce, s.ownership.ownershipBlockedNonces nonceLane = some blockedNonce

end Lanes

/-- In every run in which no nonce is lost the lanes reserve in order, and a lane that has gone past
a nonce that was given back or reported as failed is blocked. -/
theorem reservations_leave_no_gap (events : List (LaneEvent Lane))
    (hloses : Throughout Lanes.step Lanes.LosesNothing (.initial : Lanes Lane) events) :
    Throughout Lanes.step (fun s event => s.ReservesInOrder event ∧ s.BlockedWherePassed)
      (.initial : Lanes Lane) events := by
  refine hloses.of_invariant
    (I := fun s => (s.wallet.Locked ∧ s.wallet.Gapless) ∧ s.ownership.Gapless) ?_ ?_ ?_
  · refine Lanes.keep_of_lanes (W := fun w => w.Locked ∧ w.Gapless)
      (O := OwnershipLanes.Gapless) ?_ ?_ ?_ ?_
    · rintro s event ⟨hlocked, hgapless⟩ hevent
      exact ⟨hlocked.step event, hgapless.step hlocked hevent⟩
    · intro s event hgapless hevent
      exact hgapless.step hevent
    · rintro s transactionId status ⟨hlocked, hgapless⟩ hkept
      exact ⟨hlocked.status .., hgapless.status hlocked id fun hfailed => (hkept hfailed).1⟩
    · intro s transactionId status hgapless hkept
      exact hgapless.status id fun hfailed => (hkept hfailed).2
  · rintro s event ⟨⟨hlocked, hwallet⟩, hownership⟩ hevent
    refine ⟨?_, fun signerKey next chainNonce nonce hnext hchain hle hlt => ?_,
      fun nonceLane next chainNonce nonce hnext hchain hle hlt => ?_⟩
    · cases event with
      | wallet event =>
        exact fun signerKey nonce chainNonce other hreserves hread hle hlt =>
          hwallet.reserves hlocked hreserves hread hle hlt
      | ownership event =>
        exact fun nonceLane nonce chainNonce other hreserves hread hle hlt =>
          (hownership.reserves hevent hreserves hread hle hlt).reserved_or_unresolved
      | status transactionId status => trivial
    · exact (hwallet.accounts hnext hchain hle hlt).imp_right And.right
    · exact (hownership.accounts hnext hchain hle hlt).imp
        OwnershipLanes.Held.reserved_or_unresolved And.right
  · refine ⟨⟨.initial, ?_, ?_⟩, ?_, ?_⟩
    · intro key next hnext
      cases hnext
    · intro key next chainNonce nonce hnext
      cases hnext
    · intro lane next hnext
      cases hnext
    · intro lane next chainNonce nonce hnext
      cases hnext

theorem reservations_leave_no_gap_twoActionsEach :
    Throughout Lanes.step Lanes.LosesNothing .initial twoActionsEach ∧
      Throughout Lanes.step (fun s event => s.ReservesInOrder event ∧ s.BlockedWherePassed) .initial
        twoActionsEach :=
  have hloses : Throughout Lanes.step Lanes.LosesNothing .initial twoActionsEach := by
    decide +kernel
  ⟨hloses, reservations_leave_no_gap twoActionsEach hloses⟩

/-- Three ownership actions are prepared at chain nonce zero, and the first is being submitted. -/
def ownershipThree : List (LaneEvent Bytes) :=
  [.ownership (.prepare alice), .ownership (.proceed 0),
    .ownership (.chainNonce 0 (some (0, true))),
    .ownership (.prepare alice), .ownership (.proceed 1),
    .ownership (.chainNonce 1 (some (0, true))),
    .ownership (.prepare alice), .ownership (.proceed 2),
    .ownership (.chainNonce 2 (some (0, true))),
    .ownership (.sign 0 true), .ownership (.signature 0 (some [2])), .ownership (.submit 0),
    .ownership (.reported 0 true)]

/-- A wallet that refuses to sign leaves a gap behind: the next action is given the nonce after it,
and nothing is blocked. On an ownership lane, a nonce that is given back above another blocked one
is forgotten when the chain passes the lower one. -/
theorem refused_nonce_passed_over :
    let s := run Lanes.step .initial ([.wallet (.enter alice), .wallet (.proceed 0),
  .wallet (.context 0 true),
      .wallet (.chainNonce 0 (some 0)), .wallet (.signature 0 none)] ++
      [.wallet (.enter alice), .wallet (.proceed 1)])
    let t := run Lanes.step .initial (ownershipThree ++ [.ownership (.abandonPrepared 1),
      .ownership (.submitted 0 (.error .other))] ++ ownershipComesAgain 3)
    (s.wallet.reserves (.context 1 true) = some (alice, 1) ∧ s.wallet.chainNonces alice = some 0 ∧
      s.wallet.walletBlockedNonces alice = none ∧ ¬ s.wallet.Unresolved (alice, 0)) ∧
    t.ownership.reserves (.chainNonce 3 (some (1, true))) = some (alice, 3) ∧
      (t.ownership.step (.chainNonce 3 (some (1, true)))).ownershipBlockedNonces alice = none ∧
      ¬ t.ownership.Reserved (alice, 1) ∧ ¬ t.ownership.Unresolved (alice, 1) := by
  decide +kernel

/-! ## Ambiguous submissions -/

namespace Lanes

/-- What a step of the client does on ownership lanes: the chain nonce that it reads, the nonce that
it reserves and the nonce that it sends. -/
def ownershipReads (s : Lanes Lane) : LaneEvent Lane → Option (Lane × ℕ)
  | .ownership event => s.ownership.reads event
  | _ => none

def ownershipReserves (s : Lanes Lane) : LaneEvent Lane → Option (Lane × ℕ)
  | .ownership event => s.ownership.reserves event
  | _ => none

def ownershipSends (s : Lanes Lane) : LaneEvent Lane → Option (Lane × ℕ)
  | .ownership event => s.ownership.sends event
  | _ => none

end Lanes

/-- A submission of an ownership action that fails without an answer stops its lane: until a reading
shows a chain nonce above it, nothing at or above it is reserved on the lane or sent. This holds as
long as the lane is not blocked below it as well, and if no later action had been let through
before. -/
theorem ambiguous_submission_stops_lane (s : Lanes Lane) (call signed : ℕ)
    (data : SignedOwnershipActionData Lane)
    (hcall : s.ownership.submitCalls[call]? = some (.submitting signed data))
    (hchecked : ∀ later ∈ s.ownership.submitCalls, ∀ taken ∈ later.checked,
      taken.1 = data.nonceLane → taken.2 < data.nonce)
    (events : List (LaneEvent Lane))
    (hblocks : Throughout Lanes.step (fun s _ =>
        ∀ blockedNonce ∈ s.ownership.ownershipBlockedNonces data.nonceLane,
          data.nonce ≤ blockedNonce)
      (s.step (.ownership (.submitted call (.error .other)))) events)
    (hreads : Throughout Lanes.step (fun s event =>
        ∀ read ∈ s.ownershipReads event, read.1 = data.nonceLane → read.2 ≤ data.nonce)
      (s.step (.ownership (.submitted call (.error .other)))) events) :
    Throughout Lanes.step (fun s event =>
        (∀ taken ∈ s.ownershipReserves event, taken.1 = data.nonceLane → taken.2 < data.nonce) ∧
        ∀ taken ∈ s.ownershipSends event, taken.1 = data.nonceLane → taken.2 < data.nonce)
      (s.step (.ownership (.submitted call (.error .other)))) events := by
  refine (hblocks.and hreads).of_invariant
    (I := fun s => s.ownership.Stopped data.nonceLane data.nonce) ?_ ?_ ?_
  · rintro s event hstopped ⟨hblocks, hreads⟩
    cases event with
    | wallet event =>
      rw [Lanes.ownership_step_wallet]
      exact hstopped
    | ownership event => exact (hstopped.step hblocks fun chainNonce hread => hreads _ hread rfl).1
    | status transactionId status =>
      exact (hstopped.keeps (s.ownership.transactionStatus_spec ..)).report ..
  · rintro s event hstopped ⟨hblocks, hreads⟩
    cases event with
    | wallet event => exact ⟨fun _ htaken => (nomatch htaken), fun _ htaken => (nomatch htaken)⟩
    | status transactionId status => exact ⟨fun _ htaken => (nomatch htaken), fun _ htaken =>
      (nomatch htaken)⟩
    | ownership event =>
      constructor
      · intro taken htaken hlane
        exact absurd hlane ((hstopped.step hblocks fun chainNonce hread => hreads _ hread rfl).2
          taken htaken)
      · intro taken htaken hlane
        refine hstopped.2 taken.2 ?_
        rw [← hlane]
        exact OwnershipLanes.checked_of_sends htaken
  · rw [Lanes.ownership_step]
    refine OwnershipLanes.stopped_of_unanswered hcall fun nonce hnonce => ?_
    obtain ⟨later, hlater, htaken⟩ := hnonce
    exact hchecked later hlater _ htaken rfl

/-- The first action is sent and the second of two others is being submitted. -/
def secondUnderWay : List (LaneEvent Bytes) :=
  ownershipSends ++ [.ownership (.prepare alice), .ownership (.proceed 1),
    .ownership (.chainNonce 1 (some (0, true))), .ownership (.prepare alice),
    .ownership (.proceed 2),
    .ownership (.chainNonce 2 (some (0, true))), .ownership (.sign 1 true),
    .ownership (.signature 1 (some [3])), .ownership (.submit 1), .ownership (.reported 1 true)]

/-- A reading that does not show its nonce as used, and an attempt to submit the third action. -/
def afterFailure : List (LaneEvent Bytes) :=
  [.ownership (.prepare alice), .ownership (.proceed 3),
    .ownership (.chainNonce 3 (some (1, true))),
    .ownership (.sign 2 true), .ownership (.signature 2 (some [4])), .ownership (.submit 2)]

theorem ambiguous_submission_stops_lane_afterFailure :
    Throughout Lanes.step (fun s event =>
        (∀ taken ∈ s.ownershipReserves event, taken.1 = alice → taken.2 < 1) ∧
        ∀ taken ∈ s.ownershipSends event, taken.1 = alice → taken.2 < 1)
      ((run Lanes.step .initial secondUnderWay).step (.ownership (.submitted 1 (.error .other))))
      afterFailure :=
  ambiguous_submission_stops_lane (run Lanes.step .initial secondUnderWay) 1 1 ⟨⟨alice, 1⟩, [3]⟩
    (by decide +kernel) (by decide +kernel) afterFailure (by decide +kernel) (by decide +kernel)

/-- An answer with status 500 does not stop the lane, and the next action is given the next nonce.
Nor does a block last that a lower one has taken the place of, or that comes too late for an action
that had been let through. -/
theorem ambiguous_answer_does_not_stop_lane :
    let s := run Lanes.step .initial (secondUnderWay ++
  [.ownership (.submitted 1 (.error (.rpcError 500)))] ++
      ownershipComesAgain 3)
    let t := run Lanes.step .initial (secondUnderWay ++ [.ownership (.sign 2 true),
      .ownership (.signature 2 (some [4])), .ownership (.submit 2),
      .ownership (.submitted 1 (.error .other))])
    let u := run Lanes.step .initial (secondUnderWay ++ [.ownership (.submitted 1 (.error .other)),
      .status [8] ⟨.reorged, none, none, none⟩] ++ ownershipComesAgain 3)
    isDefiniteSubmissionRejection (.rpcError 500) = false ∧
      s.ownership.reserves (.chainNonce 3 (some (0, true))) = some (alice, 3) ∧
      t.ownership.sends (.reported 2 true) = some (alice, 2) ∧
      u.ownership.reserves (.chainNonce 3 (some (1, true))) = some (alice, 3) := by
  decide +kernel

end JamScript.Client
