import JamScript.Client.NonceLanes
import JamScript.Common.Ledger

/-!
# What happens on a wallet lane

`reserveWalletNonce` runs under a lock made of promises, and between the moment at which it looks up
its own next nonce and the moment at which it uses it the chain is read. `Locked` says what the lock
gives: the nonce that was looked up is still right, or the lane is blocked.

`Effect` is what a step does to the next nonce, the blocked nonce and the nonces of the lanes that
calls answer for. What is proved about runs is proved from it, by the rules for ledgers. Calls
answer for nonces in two ways. A nonce is outstanding while it is reserved, sent, or answered
without a definite rejection, and no outstanding nonce is to be handed out again. It is unresolved
while it is outstanding and its transaction was not reported as failed, and only unresolved nonces
leave no gap.
-/

namespace JamScript.Client

open Codec Function Ledgers

variable {Lane : Type}

/-! ## Lists of calls -/

section Calls

variable {α : Type} {calls : List α} {call : ℕ} {before : α}

theorem exists_call_iff (hcall : calls[call]? = some before) (P : α → Prop) :
    (∃ phase ∈ calls, P phase) ↔ P before ∨ ∃ phase ∈ calls.eraseIdx call, P phase := by
  obtain ⟨hlt, rfl⟩ := List.getElem?_eq_some_iff.mp hcall
  simp only [← (List.getElem_cons_eraseIdx_perm hlt).mem_iff, List.mem_cons, exists_eq_or_imp]

theorem exists_set_call_iff (hcall : calls[call]? = some before) (after : α) (P : α → Prop) :
    (∃ phase ∈ calls.set call after, P phase) ↔ P after ∨
    ∃ phase ∈ calls.eraseIdx call, P phase := by
  obtain ⟨hlt, -⟩ := List.getElem?_eq_some_iff.mp hcall
  simp only [(List.set_perm_cons_eraseIdx hlt after).mem_iff, List.mem_cons, exists_eq_or_imp]

end Calls

/-! ## Blocked and next nonces -/

section Maps

variable [DecidableEq Lane] {blocked next : Lane → Option ℕ} {lane : Lane} {nonce : ℕ}

theorem lowerBlock_of_ne {other : Lane} (h : other ≠ lane) : lowerBlock blocked lane nonce other =
    blocked other := by
  unfold lowerBlock
  split
  · exact update_of_ne h _ _
  · rfl

theorem lowerBlock_self (blocked : Lane → Option ℕ) (lane : Lane) (nonce : ℕ) :
    ∃ least, lowerBlock blocked lane nonce lane = some least ∧ least ≤ nonce ∧
      ∀ earlier, blocked lane = some earlier → least ≤ earlier := by
  unfold lowerBlock
  cases h : blocked lane with
  | none => exact ⟨nonce, by simp, le_rfl, by simp⟩
  | some earlier =>
    simp only [Option.all_some, decide_eq_true_eq, Option.some.injEq, forall_eq']
    split
    · next hlt => exact ⟨nonce, by simp, le_rfl, hlt.le⟩
    · next hge => exact ⟨earlier, h, Nat.le_of_not_lt hge, le_rfl⟩

/-- A block is only ever lowered. -/
theorem lowerBlock_eq_none {other : Lane} (h : lowerBlock blocked lane nonce other = none) :
    other ≠ lane ∧ blocked other = none := by
  have hne : other ≠ lane := by
    rintro rfl
    obtain ⟨least, hleast, -⟩ := lowerBlock_self blocked other nonce
    rw [hleast] at h
    cases h
  exact ⟨hne, (lowerBlock_of_ne hne).symm.trans h⟩

theorem lowers_lowerBlock (blocked : Lane → Option ℕ) (lane : Lane) (nonce : ℕ) :
    Lowers blocked (lowerBlock blocked lane nonce) := by
  intro other blockedNonce hblocked
  by_cases hne : other = lane
  · subst hne
    obtain ⟨least, hleast, -, hle⟩ := lowerBlock_self blocked other nonce
    exact ⟨least, hle _ hblocked, hleast⟩
  · exact ⟨blockedNonce, le_rfl, (lowerBlock_of_ne hne).trans hblocked⟩

theorem forgetLast_eq_some {other : Lane} {n : ℕ} (h : forgetLast next lane nonce other = some n) :
    next other = some n ∧ ¬ (other = lane ∧ n = nonce + 1) := by
  unfold forgetLast at h
  split at h
  · by_cases hlane : other = lane
    · subst hlane
      simp at h
    · rw [update_of_ne hlane] at h
      exact ⟨h, fun hsame => hlane hsame.1⟩
  · next hnext =>
    refine ⟨h, ?_⟩
    rintro ⟨rfl, rfl⟩
    exact hnext h

end Maps

namespace WalletLanes

variable {w w' : WalletLanes Lane} {call nonce : ℕ} {signerKey : Lane}
  {before phase : WalletCall Lane}

/-! ## The lock of `reserveWalletNonce` -/

/-- Calls hold the lane one at a time, and one that waits for the chain knows that the lane has no
next nonce or is blocked. -/
structure Locked (w : WalletLanes Lane) : Prop where
  orderly : Tails.Orderly w.nonceTails (w.calls.map WalletCall.standing)
  looked : ∀ {call : ℕ} {signerKey : Lane} {localNonce : Option ℕ},
    w.calls[call]? = some (.readingNonce signerKey localNonce) →
    (localNonce = none ∧ w.nextNonces signerKey = none) ∨ w.walletBlockedNonces signerKey ≠ none

theorem Locked.initial : Locked (initial : WalletLanes Lane) where
  orderly := .empty
  looked h := by simp [WalletLanes.initial] at h

/-- The call moves on without touching the lock. -/
theorem Locked.goto (h : w.Locked) (hcall : w.calls[call]? = some before)
    (hstanding : phase.standing = before.standing)
    (hlooked : ∀ {signerKey localNonce}, phase = .readingNonce signerKey localNonce →
      (localNonce = none ∧ w.nextNonces signerKey = none) ∨
      w.walletBlockedNonces signerKey ≠ none) :
    (w.goto call phase).Locked := by
  obtain ⟨hlt, hbefore⟩ := List.getElem?_eq_some_iff.mp hcall
  constructor
  · have hsame : (w.calls.set call phase).map WalletCall.standing =
      w.calls.map WalletCall.standing := by
      rw [List.map_set, hstanding, ← hbefore]
      simp [← List.map_set]
    change Tails.Orderly w.nonceTails ((w.calls.set call phase).map WalletCall.standing)
    rw [hsame]
    exact h.orderly
  · intro other signerKey localNonce hother
    by_cases hne : other = call
    · subst hne
      rw [WalletLanes.goto, List.getElem?_set_self hlt] at hother
      exact hlooked (Option.some.inj hother)
    · rw [WalletLanes.goto, List.getElem?_set_ne (Ne.symm hne)] at hother
      exact h.looked hother

/-- Next nonces may be dropped and lanes blocked at any time. -/
theorem Locked.weaken (h : w.Locked) (hcalls : w'.calls = w.calls)
    (htails : w'.nonceTails = w.nonceTails) (hnext : ∀ key, w.nextNonces key = none →
      w'.nextNonces key = none)
    (hblocked : ∀ key, w'.walletBlockedNonces key = none → w.walletBlockedNonces key = none) :
    w'.Locked where
  orderly := by rw [hcalls, htails]; exact h.orderly
  looked hother := by
    rw [hcalls] at hother
    exact (h.looked hother).imp (And.imp_right (hnext _)) (mt (hblocked _))

theorem mayProceed_of_resolved {previous : Option ℕ} (h : w.resolved previous = true) :
    Tails.MayProceed (w.calls.map WalletCall.standing) previous := by
  rintro earlier hearlier key hpresent
  obtain rfl := Option.mem_def.mp hearlier
  simp only [resolved, Option.bind_some] at h
  unfold Tails.Present at hpresent
  simp only [List.getElem?_map, Option.map_eq_some_iff] at hpresent
  rcases hpresent with ⟨_, phase, hphase, hstanding⟩ | ⟨phase, hphase, hstanding⟩ <;>
  · rw [hphase] at h
    cases phase <;> simp_all [WalletCall.standing, WalletCall.hasReleased]

theorem Locked.proceed (h : w.Locked) {previous : Option ℕ}
    (hcall : w.calls[call]? = some (.queued signerKey previous))
    (hresolved : w.resolved previous = true) :
    (w.goto call (.readingContext signerKey)).Locked where
  orderly := by
    have hstanding : (w.calls.map WalletCall.standing)[call]? =
      some (.waiting signerKey previous) := by
      rw [List.getElem?_map, hcall]
      rfl
    simpa [WalletLanes.goto, WalletCall.standing, List.map_set] using
      h.orderly.proceed hstanding (mayProceed_of_resolved hresolved)
  looked {other key localNonce} hother := by
    rw [WalletLanes.goto, List.getElem?_set] at hother
    split at hother
    · split at hother <;> simp at hother
    · exact h.looked hother

variable [DecidableEq Lane]

theorem Locked.enter (h : w.Locked) (signerKey : Lane) : (w.step (.enter signerKey)).Locked where
  orderly := by
    simpa [step, WalletCall.standing] using h.orderly.enter signerKey
  looked {other key localNonce} hother := by
    simp only [step] at hother
    rw [List.getElem?_append] at hother
    split at hother
    · exact h.looked hother
    · rw [List.getElem?_singleton] at hother
      split at hother <;> simp at hother

/-- The holder releases the lane, after it has changed what it likes on it. -/
theorem Locked.leave (h : w.Locked) (hcall : w.calls[call]? = some before)
    (hholding : before.standing = .holding signerKey) (hcalls : w'.calls = w.calls)
    (htails : w'.nonceTails = w.nonceTails)
    (hnext : ∀ key, key ≠ signerKey → w'.nextNonces key = w.nextNonces key)
    (hblocked : ∀ key, key ≠ signerKey → w'.walletBlockedNonces key = w.walletBlockedNonces key)
    (hreleased : phase.standing = .released) : (w'.leave call signerKey phase).Locked := by
  have hstanding : (w.calls.map WalletCall.standing)[call]? = some (.holding signerKey) := by
    rw [List.getElem?_map, hcall, Option.map_some, hholding]
  constructor
  · have := h.orderly.release hstanding
    simpa [WalletLanes.leave, WalletLanes.goto, dropTail, List.map_set, hreleased, hcalls,
      htails] using this
  · intro other key localNonce hother
    simp only [WalletLanes.leave, WalletLanes.goto, hcalls] at hother ⊢
    rw [List.getElem?_set] at hother
    split at hother
    · split at hother
      · obtain rfl := Option.some.inj hother
        simp [WalletCall.standing] at hreleased
      · simp at hother
    · next hne =>
      -- nobody else holds the lane
      have hkey : key ≠ signerKey := by
        rintro rfl
        refine hne (h.orderly.holding_unique hstanding ?_)
        rw [List.getElem?_map, hother]
        rfl
      rw [hnext key hkey, hblocked key hkey]
      exact h.looked hother

theorem Locked.giveUp (h : w.Locked) (hcall : w.calls[call]? = some before)
    (hholding : before.standing = .holding signerKey) (chainNonces : Lane → Option ℕ) :
    ({ w with chainNonces := chainNonces }.leave call signerKey .failed).Locked :=
  h.leave hcall hholding rfl rfl (fun _ _ => rfl) (fun _ _ => rfl) rfl

theorem reconcile_eq_some {localNonce kept : Option ℕ} {chainNonce : ℕ}
    (h : w.reconcile signerKey localNonce chainNonce = some (w', kept)) :
    (w.walletBlockedNonces signerKey = none ∧ w' = w ∧ kept = localNonce) ∨
    ∃ blockedNonce, w.walletBlockedNonces signerKey = some blockedNonce ∧
      blockedNonce < chainNonce ∧
      kept = none ∧ w' = { w with
        walletBlockedNonces := update w.walletBlockedNonces signerKey none
        walletTransactionNonces := forgetBelow w.walletTransactionNonces signerKey chainNonce
        nextNonces := update w.nextNonces signerKey none } := by
  unfold reconcile at h
  split at h
  · next hblocked =>
    simp only [Option.some.injEq, Prod.mk.injEq] at h
    exact .inl ⟨hblocked, h.1.symm, h.2.symm⟩
  · next blockedNonce hblocked =>
    split at h
    · simp at h
    · next hlt =>
      simp only [Option.some.injEq, Prod.mk.injEq] at h
      exact .inr ⟨blockedNonce, hblocked, Nat.lt_of_not_le hlt, h.2.symm, h.1.symm⟩

theorem reconcile_eq_none {localNonce : Option ℕ} {chainNonce : ℕ} :
    w.reconcile signerKey localNonce chainNonce = none ↔
      ∃ blockedNonce, w.walletBlockedNonces signerKey = some blockedNonce ∧
        chainNonce ≤ blockedNonce := by
  unfold reconcile
  split
  · next hblocked => simp [hblocked]
  · next blockedNonce hblocked => simp [hblocked]

end WalletLanes

/-! ## The nonces that calls answer for -/

/-- The nonce for which a call still answers: reserved, sent, or not definitely rejected. -/
def WalletCall.outstanding : WalletCall Lane → Option (Lane × ℕ)
  | .signing signerKey nonce | .reporting signerKey nonce _ | .submitting signerKey nonce _ =>
    some (signerKey, nonce)
  | .ended signerKey nonce outcome => if outcome = .rejected then none else some (signerKey, nonce)
  | _ => none

/-- The nonce that a call has sent to the backend, unless it was definitely rejected. -/
def WalletCall.sent : WalletCall Lane → Option (Lane × ℕ)
  | .submitting signerKey nonce _ => some (signerKey, nonce)
  | .ended signerKey nonce outcome => if outcome = .rejected then none else some (signerKey, nonce)
  | _ => none

theorem WalletCall.outstanding_of_sent {call : WalletCall Lane} {taken : Lane × ℕ}
    (h : call.sent = some taken) : call.outstanding = some taken := by
  cases call <;> simp_all [sent, outstanding]

def WalletCall.reportedFailed : WalletCall Lane → Bool
  | .ended _ _ outcome => outcome = .failed
  | _ => false

/-- The nonce that is reserved, or sent and neither definitely rejected nor reported as failed. An
action that was reported as applied has used its nonce. -/
def WalletCall.unresolved (call : WalletCall Lane) : Option (Lane × ℕ) :=
  if call.reportedFailed then none else call.outstanding

/-- The nonce of a call that was accepted under the transaction. -/
def WalletCall.acceptedAs (transactionId : Bytes) : WalletCall Lane → Option (Lane × ℕ)
  | .ended signerKey nonce outcome =>
    if outcome = .accepted transactionId then some (signerKey, nonce) else none
  | _ => none

/-- Both ways to count differ from this at most for calls that were reported as failed. -/
def WalletCall.Counts (counts : WalletCall Lane → Option (Lane × ℕ)) : Prop :=
  ∀ {call : WalletCall Lane}, call.reportedFailed = false → counts call = call.outstanding

theorem WalletCall.counts_outstanding : Counts
    (outstanding : WalletCall Lane → Option (Lane × ℕ)) :=
  fun _ => rfl

theorem WalletCall.counts_unresolved : Counts (unresolved : WalletCall Lane → Option (Lane × ℕ)) :=
  fun h => by simp [unresolved, h]

@[simp] theorem Outcome.ofError_ne_failed (error : SubmissionError) :
    Outcome.ofError error ≠ .failed := by
  unfold Outcome.ofError
  split <;> simp

theorem WalletCall.outstanding_report (transactionId : Bytes) (call : WalletCall Lane) :
    (call.report transactionId).outstanding = call.outstanding := by
  cases call with
  | ended signerKey nonce outcome =>
    cases outcome with
    | accepted taken =>
      simp only [report, Outcome.report]
      split <;> simp [outstanding]
    | ambiguous | rejected | failed => rfl
  | _ => rfl

/-- A report resolves no other calls than those that were accepted under the transaction. -/
theorem WalletCall.unresolved_report {transactionId : Bytes} {call : WalletCall Lane}
    {taken : Lane × ℕ} (h : call.unresolved = some taken) :
    (call.report transactionId).unresolved = some taken ∨ call.acceptedAs transactionId =
      some taken := by
  cases call with
  | ended signerKey nonce outcome =>
    cases outcome with
    | accepted accepted =>
      by_cases hsame : accepted = transactionId
      · right
        simpa [unresolved, reportedFailed, outstanding, acceptedAs, hsame] using h
      · left
        simpa [report, Outcome.report, hsame] using h
    | ambiguous | rejected | failed => exact .inl h
  | _ => exact .inl h

namespace WalletLanes

variable {w w' : WalletLanes Lane} {call nonce : ℕ} {signerKey : Lane}
  {before phase : WalletCall Lane} {taken : Lane × ℕ}

def Outstanding (w : WalletLanes Lane) (taken : Lane × ℕ) : Prop :=
  ∃ call ∈ w.calls, call.outstanding = some taken

/-- The nonce went to the backend and was not definitely rejected. -/
def Sent (w : WalletLanes Lane) (taken : Lane × ℕ) : Prop :=
  ∃ call ∈ w.calls, call.sent = some taken

def Unresolved (w : WalletLanes Lane) (taken : Lane × ℕ) : Prop :=
  ∃ call ∈ w.calls, call.unresolved = some taken

theorem Sent.outstanding (h : w.Sent taken) : w.Outstanding taken :=
  let ⟨call, hmem, hsent⟩ := h
  ⟨call, hmem, WalletCall.outstanding_of_sent hsent⟩

/-- The lanes as a ledger, with the nonces that calls answer for in one of the two ways. -/
def ledger (counts : WalletCall Lane → Option (Lane × ℕ)) (w : WalletLanes Lane) : Ledger Lane where
  next := w.nextNonces
  blocked := w.walletBlockedNonces
  start := w.chainNonces
  held taken := ∃ call ∈ w.calls, counts call = some taken
  lost _ := True

instance (w : WalletLanes Lane) (taken : Lane × ℕ) [DecidableEq Lane] : Decidable (w.Sent taken) :=
  inferInstanceAs (Decidable (∃ call ∈ w.calls, call.sent = some taken))

instance (w : WalletLanes Lane) (taken : Lane × ℕ) [DecidableEq Lane] :
    Decidable (w.Unresolved taken) :=
  inferInstanceAs (Decidable (∃ call ∈ w.calls, call.unresolved = some taken))

/-! ## What is asked of the environment -/

/-- The wallet does not sign, and the nonce stays taken. -/
def refused (w : WalletLanes Lane) : WalletEvent Lane → Option (Lane × ℕ)
  | .signature call none =>
    match w.calls[call]? with
    | some (.signing signerKey nonce) => some (signerKey, nonce)
    | _ => none
  | _ => none

/-- The nonce of a submission that is definitely rejected. -/
def rejected (w : WalletLanes Lane) : WalletEvent Lane → Option (Lane × ℕ)
  | .submitted call (.error error) =>
    match w.calls[call]? with
    | some (.submitting signerKey nonce _) =>
      if isDefiniteSubmissionRejection error then some (signerKey, nonce) else none
    | _ => none
  | _ => none

/-- The chain had not passed the nonce at the last reading, the next nonce of the lane is a later
one, and the lane is not blocked there or below. -/
def Passed (w : WalletLanes Lane) (taken : Lane × ℕ) : Prop :=
  (w.ledger WalletCall.unresolved).Passed taken

instance (w : WalletLanes Lane) (taken : Lane × ℕ) : Decidable (w.Passed taken) :=
  inferInstanceAs (Decidable (Ledger.Passed _ _))

/-- Readings of a lane do not go back, a nonce that the wallet refuses to sign for was not passed,
and one that is definitely rejected is the last one the lane has handed out or was not passed. -/
def LosesNothing (w : WalletLanes Lane) [DecidableEq Lane] (event : WalletEvent Lane) : Prop :=
  (∀ read ∈ w.reads event, ∀ earlier ∈ w.chainNonces read.1, earlier ≤ read.2) ∧
  (∀ taken ∈ w.refused event, ¬ w.Passed taken) ∧
  ∀ taken ∈ w.rejected event, w.Passed taken → w.nextNonces taken.1 = some (taken.2 + 1)

/-- A transaction that is reported as failed is one that the client keeps, or its nonce was not
passed. -/
def ReportsKept (w : WalletLanes Lane) (transactionId : Bytes) : Prop :=
  ∀ call ∈ w.calls, ∀ taken ∈ call.acceptedAs transactionId, w.Passed taken →
    w.walletTransactionNonces transactionId = some taken

variable [DecidableEq Lane]

instance (w : WalletLanes Lane) (event : WalletEvent Lane) : Decidable (w.LosesNothing event) :=
  inferInstanceAs (Decidable (_ ∧ _ ∧ _))

instance (w : WalletLanes Lane) (transactionId : Bytes) : Decidable (w.ReportsKept transactionId) :=
  inferInstanceAs (Decidable (∀ call ∈ w.calls, ∀ taken ∈ call.acceptedAs transactionId,
    w.Passed taken → w.walletTransactionNonces transactionId = some taken))

/-- A lane that goes by the chain finds that the chain has passed all that is outstanding on it. -/
def RestartsClear (w : WalletLanes Lane) (event : WalletEvent Lane) : Prop :=
  ∀ read ∈ w.reads event, w.reserves event ≠ none → ∀ nonce, w.Outstanding (read.1, nonce) →
    nonce < read.2

instance (w : WalletLanes Lane) (event : WalletEvent Lane) : Decidable (w.RestartsClear event) :=
  decidable_of_iff (∀ read ∈ w.reads event, w.reserves event ≠ none → ∀ call ∈ w.calls,
      ∀ taken ∈ call.outstanding, taken.1 = read.1 → taken.2 < read.2)
    ⟨fun h read hread hreserves nonce ⟨call, hcall, htaken⟩ =>
        h read hread hreserves call hcall (read.1, nonce) htaken rfl,
      fun h read hread hreserves call hcall taken htaken hlane =>
        h read hread hreserves taken.2 ⟨call, hcall, hlane ▸ htaken⟩⟩

/-! ## Effects of the steps -/

variable {counts : WalletCall Lane → Option (Lane × ℕ)}

/-- No nonce is taken or given back. -/
structure Keeps (counts : WalletCall Lane → Option (Lane × ℕ))
    (w w' : WalletLanes Lane) : Prop where
  next : w'.nextNonces = w.nextNonces
  blocked : Lowers w.walletBlockedNonces w'.walletBlockedNonces
  held : ∀ {taken}, (w'.ledger counts).held taken ↔ (w.ledger counts).held taken
  chain : w'.chainNonces = w.chainNonces

omit [DecidableEq Lane] in
theorem Keeps.refl (w : WalletLanes Lane) : Keeps counts w w :=
  ⟨rfl, .refl _, Iff.rfl, rfl⟩

/-- What a step does to the nonces of the lanes. -/
inductive Effect (counts : WalletCall Lane → Option (Lane × ℕ)) (w : WalletLanes Lane) :
    WalletEvent Lane → WalletLanes Lane → Prop where
  | keeps {event w'} (hreserves : w.reserves event = none) (h : Keeps counts w w') : Effect
    counts w event w'
  /-- the lane stays blocked -/
  | waits {event w'} (signerKey : Lane) (chainNonce : ℕ) (hreserves : w.reserves event = none)
      (hreads : w.reads event = some (signerKey, chainNonce))
      (h : Keeps counts { w with chainNonces := update w.chainNonces signerKey (some chainNonce) }
        w') :
      Effect counts w event w'
  | continues {event w' signerKey nonce} (hreserves : w.reserves event = some (signerKey, nonce))
      (hlocal : w.nextNonces signerKey = some nonce)
      (hopen : w.walletBlockedNonces signerKey = none)
      (hnext : w'.nextNonces = update w.nextNonces signerKey (some (nonce + 1)))
      (hblocked : w'.walletBlockedNonces = w.walletBlockedNonces)
      (hheld : ∀ taken, (w'.ledger counts).held taken ↔
        taken = (signerKey, nonce) ∨ (w.ledger counts).held taken)
      (hchain : w'.chainNonces = w.chainNonces) : Effect counts w event w'
  | restarts {event w' signerKey chainNonce} (hreserves : w.reserves event =
    some (signerKey, chainNonce))
      (hreads : w.reads event = some (signerKey, chainNonce))
      (hnext : w'.nextNonces = update w.nextNonces signerKey (some (chainNonce + 1)))
      (hblocked : w'.walletBlockedNonces = update w.walletBlockedNonces signerKey none)
      (hheld : ∀ taken, (w'.ledger counts).held taken ↔
        taken = (signerKey, chainNonce) ∨ (w.ledger counts).held taken)
      (hchain : w'.chainNonces = update w.chainNonces signerKey (some chainNonce)) :
      Effect counts w event w'
  /-- the wallet refuses, the callback fails or the submission is definitely rejected -/
  | loses {event w'} (signerKey : Lane) (nonce : ℕ) (hreserves : w.reserves event = none)
      (hnext : ∀ {key next}, w'.nextNonces key = some next → w.nextNonces key = some next)
      (hblocked : Lowers w.walletBlockedNonces w'.walletBlockedNonces)
      (hpassed : ∀ {chainNonce next}, w.LosesNothing event →
        w.chainNonces signerKey = some chainNonce →
        chainNonce ≤ nonce → w'.nextNonces signerKey = some next → nonce < next →
        ∃ blockedNonce ≤ nonce, w'.walletBlockedNonces signerKey = some blockedNonce)
      (hheld : ∀ taken, (w.ledger counts).held taken ↔
        taken = (signerKey, nonce) ∨ (w'.ledger counts).held taken)
      (hchain : w'.chainNonces = w.chainNonces) : Effect counts w event w'

section Held

omit [DecidableEq Lane]

/-- What the calls answer for when one of them moves on. -/
theorem held_goto (hcounts : WalletCall.Counts counts) (hcall : w.calls[call]? = some before)
    (hcalls : w'.calls = (w.goto call phase).calls)
    (hlive : (before.reportedFailed || phase.reportedFailed) = false)
    (hsame : phase.outstanding = before.outstanding) :
    (w'.ledger counts).held taken ↔ (w.ledger counts).held taken := by
  rw [Bool.or_eq_false_iff] at hlive
  simp only [ledger, hcalls, goto]
  rw [exists_set_call_iff hcall, exists_call_iff hcall, hcounts hlive.1, hcounts hlive.2, hsame]

theorem held_goto_new (hcounts : WalletCall.Counts counts) (hcall : w.calls[call]? = some before)
    (hcalls : w'.calls = (w.goto call phase).calls)
    (hlive : (before.reportedFailed || phase.reportedFailed) = false)
    (hbefore : before.outstanding = none) {fresh : Lane × ℕ}
    (hphase : phase.outstanding = some fresh) :
    (w'.ledger counts).held taken ↔ taken = fresh ∨ (w.ledger counts).held taken := by
  rw [Bool.or_eq_false_iff] at hlive
  simp only [ledger, hcalls, goto]
  rw [exists_set_call_iff hcall, exists_call_iff hcall, hcounts hlive.1, hcounts hlive.2,
    hbefore, hphase]
  simp [eq_comm]

theorem held_goto_gone (hcounts : WalletCall.Counts counts) (hcall : w.calls[call]? = some before)
    (hcalls : w'.calls = (w.goto call phase).calls)
    (hlive : (before.reportedFailed || phase.reportedFailed) = false) {gone : Lane × ℕ}
    (hbefore : before.outstanding = some gone) (hphase : phase.outstanding = none) :
    (w.ledger counts).held taken ↔ taken = gone ∨ (w'.ledger counts).held taken := by
  rw [Bool.or_eq_false_iff] at hlive
  simp only [ledger, hcalls, goto]
  rw [exists_set_call_iff hcall, exists_call_iff hcall, hcounts hlive.1, hcounts hlive.2,
    hbefore, hphase]
  simp [eq_comm]

end Held

theorem Locked.reserve (h : w.Locked) (hcall : w.calls[call]? = some before)
    (hholding : before.standing = .holding signerKey) (nonce : ℕ) :
    (w.reserve call signerKey nonce).Locked :=
  h.leave hcall hholding rfl rfl (fun _ hkey => update_of_ne hkey _ _) (fun _ _ => rfl) rfl

theorem step_context (hcounts : WalletCall.Counts counts) (h : w.Locked) (call : ℕ)
    (answered : Bool) :
    (w.step (.context call answered)).Locked ∧
      w.Effect counts (.context call answered) (w.step (.context call answered)) := by
  simp only [step]
  split
  · next signerKey hcall =>
    cases answered with
    | false =>
      simp only [Bool.false_eq_true, if_false]
      refine ⟨h.giveUp hcall rfl w.chainNonces, .keeps rfl ⟨rfl, .refl _, ?_, rfl⟩⟩
      exact held_goto hcounts hcall rfl rfl rfl
    | true =>
      simp only [if_true]
      split
      · next localNonce hlocal hopen =>
        have hreserves : w.reserves (.context call true) = some (signerKey, localNonce) := by
          simp [reserves, hcall, hlocal, hopen]
        exact ⟨h.reserve hcall rfl localNonce, .continues hreserves hlocal hopen rfl rfl
          (fun _ => held_goto_new hcounts hcall rfl rfl rfl rfl) rfl⟩
      · next localNonce blockedNonce hwaits =>
        have hreserves : w.reserves (.context call true) = none := by
          simp only [reserves, hcall]
        have hlooked : w.nextNonces signerKey = none ∨ w.walletBlockedNonces signerKey ≠ none := by
          by_contra hnot
          push Not at hnot
          obtain ⟨localNonce, hlocal⟩ := Option.ne_none_iff_exists'.mp hnot.1
          exact hwaits localNonce hlocal hnot.2
        refine ⟨h.goto hcall rfl ?_, .keeps hreserves ⟨rfl, .refl _, ?_, rfl⟩⟩
        · rintro _ _ ⟨⟩
          exact hlooked.imp_left fun hnext => ⟨hnext, hnext⟩
        · exact held_goto hcounts hcall rfl rfl rfl
  · next hcall =>
    refine ⟨h, .keeps ?_ (.refl w)⟩
    cases answered with
    | false => rfl
    | true => simp only [reserves]

theorem step_chainNonce (hcounts : WalletCall.Counts counts) (h : w.Locked) (call : ℕ)
    (answer : Option ℕ) : (w.step (.chainNonce call answer)).Locked ∧
      w.Effect counts (.chainNonce call answer) (w.step (.chainNonce call answer)) := by
  simp only [step]
  split
  · next signerKey localNonce hcall =>
    cases answer with
    | none =>
      refine ⟨h.giveUp hcall rfl w.chainNonces, .keeps rfl ⟨rfl, .refl _, ?_, rfl⟩⟩
      exact held_goto hcounts hcall rfl rfl rfl
    | some chainNonce =>
      have hreads : w.reads (.chainNonce call (some chainNonce)) =
        some (signerKey, chainNonce) := by
        simp only [reads, hcall]
      simp only
      split
      · next hreconcile =>
        obtain ⟨blockedNonce, hblocked, hle⟩ := reconcile_eq_none.mp hreconcile
        have hreserves : w.reserves (.chainNonce call (some chainNonce)) = none := by
          simp only [reserves, hcall, Option.map_eq_none_iff]
          exact reconcile_eq_none.mpr ⟨blockedNonce, hblocked, hle⟩
        refine ⟨h.giveUp hcall rfl _, .waits signerKey chainNonce hreserves hreads
          ⟨rfl, .refl _, ?_, rfl⟩⟩
        exact held_goto hcounts hcall rfl rfl rfl
      · next after kept hreconcile =>
        -- a lane that was not blocked had no next nonce, one that was blocked has lost it
        rcases reconcile_eq_some hreconcile with ⟨hopen, rfl, rfl⟩ | ⟨blockedNonce, hblocked,
          hlt, rfl, rfl⟩
        · obtain ⟨rfl, hnone⟩ := (h.looked hcall).resolve_right (not_not_intro hopen)
          refine ⟨h.leave hcall rfl rfl rfl (fun _ hkey => update_of_ne hkey _ _)
            (fun _ _ => rfl) rfl,
            .restarts ?_ hreads rfl ?_ (fun _ => held_goto_new hcounts hcall rfl rfl rfl rfl) rfl⟩
          · simp only at hopen
            simp [reserves, hcall, reconcile, hopen, chooseNonce]
          · exact (update_eq_self_iff.mpr hopen.symm).symm
        · refine ⟨h.leave hcall rfl rfl rfl (fun _ hkey => ?_)
            (fun _ hkey => update_of_ne hkey _ _) rfl,
            .restarts ?_ hreads ?_ rfl (fun _ => held_goto_new hcounts hcall rfl rfl rfl rfl) rfl⟩
          · exact (update_of_ne hkey _ _).trans (update_of_ne hkey _ _)
          · simp only at hblocked
            simp [reserves, hcall, reconcile, hblocked, Nat.not_le.mpr hlt, chooseNonce]
          · exact update_idem ..
  · next hcall =>
    refine ⟨h, .keeps ?_ (.refl w)⟩
    cases answer with
    | none => rfl
    | some chainNonce => simp only [reserves]

theorem step_signature (hcounts : WalletCall.Counts counts) (h : w.Locked) (call : ℕ)
    (answer : Option Bytes) : (w.step (.signature call answer)).Locked ∧
      w.Effect counts (.signature call answer) (w.step (.signature call answer)) := by
  simp only [step]
  split
  · next signerKey nonce hcall =>
    cases answer with
    | none =>
      have hrefused : w.refused (.signature call none) = some (signerKey, nonce) := by
        simp only [refused, hcall]
      refine ⟨h.goto hcall rfl (by simp), .loses signerKey nonce rfl id (.refl _) ?_
        (fun _ => held_goto_gone hcounts hcall rfl rfl rfl rfl) rfl⟩
      intro chainNonce next hloses hchain hle hnext hlt
      exact Ledger.exists_block_of_not_passed (hloses.2.1 _ hrefused) hchain hle hnext hlt
    | some actionHash =>
      refine ⟨h.goto hcall rfl (by simp), .keeps rfl ⟨rfl, .refl _, ?_, rfl⟩⟩
      exact held_goto hcounts hcall rfl rfl rfl
  · exact ⟨h, .keeps rfl (.refl w)⟩

theorem step_reported (hcounts : WalletCall.Counts counts) (h : w.Locked) (call : ℕ)
    (returned : Bool) :
    (w.step (.reported call returned)).Locked ∧
      w.Effect counts (.reported call returned) (w.step (.reported call returned)) := by
  simp only [step]
  split
  · next signerKey nonce actionHash hcall =>
    split
    · refine ⟨h.goto hcall rfl (by simp), .keeps rfl ⟨rfl, .refl _, ?_, rfl⟩⟩
      exact held_goto hcounts hcall rfl rfl rfl
    · have hfailed : (w.goto call .failed).Locked := h.goto hcall rfl (by simp)
      split
      · next hlast =>
        have hforget : forgetLast w.nextNonces signerKey nonce = update w.nextNonces
          signerKey none :=
          if_pos hlast
        refine ⟨hfailed.weaken rfl rfl (fun key hkey => ?_) (fun _ => id),
          .loses signerKey nonce rfl ?_
          (.refl _) ?_ (fun _ => held_goto_gone hcounts hcall rfl rfl rfl rfl) rfl⟩
        · by_cases heq : key = signerKey
          · subst heq
            exact update_self ..
          · exact (update_of_ne heq _ _).trans hkey
        · intro key next hsome
          exact (forgetLast_eq_some (hforget ▸ hsome)).1
        · intro chainNonce next _ _ _ hsome
          cases (update_self ..).symm.trans hsome
      · next hlast =>
        refine ⟨hfailed.weaken rfl rfl (fun _ => id) (fun _ hkey => (lowerBlock_eq_none hkey).2),
          .loses signerKey nonce rfl id (lowers_lowerBlock _ _ _) ?_
            (fun _ => held_goto_gone hcounts hcall rfl rfl rfl rfl) rfl⟩
        intro chainNonce next _ _ _ _ _
        obtain ⟨least, hleast, hle, -⟩ := lowerBlock_self w.walletBlockedNonces signerKey nonce
        exact ⟨least, hle, hleast⟩
  · exact ⟨h, .keeps rfl (.refl w)⟩

theorem step_submitted (hcounts : WalletCall.Counts counts) (h : w.Locked) (call : ℕ)
    (answer : Except SubmissionError Bytes) : (w.step (.submitted call answer)).Locked ∧
      w.Effect counts (.submitted call answer) (w.step (.submitted call answer)) := by
  simp only [step]
  split
  · next signerKey nonce actionHash hcall =>
    have hended (outcome : Outcome) : (w.goto call (.ended signerKey nonce outcome)).Locked :=
      h.goto hcall rfl (by simp)
    cases answer with
    | ok transactionId =>
      refine ⟨(hended (.accepted transactionId)).weaken rfl rfl (fun _ => id) (fun _ => id),
        .keeps rfl ⟨rfl, .refl _, ?_, rfl⟩⟩
      exact held_goto hcounts hcall rfl rfl rfl
    | error error =>
      have hlive : ((WalletCall.submitting signerKey nonce actionHash).reportedFailed ||
          (WalletCall.ended signerKey nonce (.ofError error)).reportedFailed) = false := by
        simp [WalletCall.reportedFailed]
      simp only
      split
      · next hdefinite =>
        have hrejected : w.rejected (.submitted call (.error error)) = some (signerKey, nonce) := by
          simp only [rejected, hcall, hdefinite, if_true]
        refine ⟨(hended _).weaken rfl rfl (fun key hkey => ?_) (fun _ => id),
          .loses signerKey nonce rfl
          (fun hsome => (forgetLast_eq_some hsome).1) (.refl _) ?_ (fun _ => ?_) rfl⟩
        · by_contra hsome
          obtain ⟨n, hn⟩ := Option.ne_none_iff_exists'.mp hsome
          have hsame := (forgetLast_eq_some hn).1
          rw [hkey] at hsame
          cases hsame
        · -- the lane has gone on, so that the rejected nonce is not its last one
          intro chainNonce next hloses hchain hle hsome hlt
          obtain ⟨hbefore, hne⟩ := forgetLast_eq_some hsome
          have hnot : ¬ w.Passed (signerKey, nonce) := fun hpassed =>
            hne ⟨rfl, Option.some.inj (hbefore.symm.trans (hloses.2.2 _ hrejected hpassed))⟩
          have hblock := Ledger.exists_block_of_not_passed hnot hchain hle hbefore hlt
          exact hblock
        · exact held_goto_gone hcounts hcall rfl hlive rfl
            (by simp [WalletCall.outstanding, Outcome.ofError, hdefinite])
      · next hdefinite =>
        refine ⟨(hended _).weaken rfl rfl (fun _ => id) (fun _ hkey => (lowerBlock_eq_none hkey).2),
          .keeps rfl ⟨rfl, lowers_lowerBlock _ _ _, ?_, rfl⟩⟩
        exact held_goto hcounts hcall rfl hlive
          (by simp [WalletCall.outstanding, Outcome.ofError, hdefinite])
  · exact ⟨h, .keeps rfl (.refl w)⟩

theorem step_spec (hcounts : WalletCall.Counts counts) (h : w.Locked) (event : WalletEvent Lane) :
    (w.step event).Locked ∧ w.Effect counts event (w.step event) := by
  cases event with
  | enter signerKey =>
    refine ⟨h.enter signerKey, .keeps rfl ⟨rfl, .refl _, ?_, rfl⟩⟩
    have hqueued : counts (.queued signerKey (w.nonceTails signerKey)) = none := hcounts rfl
    simp [ledger, step, hqueued, or_and_right, exists_or]
  | proceed call =>
    simp only [step]
    split
    · next signerKey previous hcall =>
      split
      · next hresolved =>
        refine ⟨h.proceed hcall hresolved, .keeps rfl ⟨rfl, .refl _, ?_, rfl⟩⟩
        exact held_goto hcounts hcall rfl rfl rfl
      · exact ⟨h, .keeps rfl (.refl w)⟩
    · exact ⟨h, .keeps rfl (.refl w)⟩
  | context call answered => exact step_context hcounts h call answered
  | chainNonce call answer => exact step_chainNonce hcounts h call answer
  | signature call answer => exact step_signature hcounts h call answer
  | reported call returned => exact step_reported hcounts h call returned
  | submitted call answer => exact step_submitted hcounts h call answer

/-! ## Reports on transactions -/

theorem transactionStatus_spec (counts : WalletCall Lane → Option (Lane × ℕ)) (h : w.Locked)
    (actionHash : Option Bytes) (transactionId : Bytes) (status : TransactionStatusResult) :
    (w.transactionStatus actionHash transactionId status).Locked ∧
      Keeps counts w (w.transactionStatus actionHash transactionId status) := by
  unfold transactionStatus
  split
  · exact ⟨h, .refl w⟩
  · dsimp only
    split
    · exact ⟨h.weaken rfl rfl (fun _ => id) (fun _ hkey => (lowerBlock_eq_none hkey).2), rfl,
        lowers_lowerBlock _ _ _, Iff.rfl, rfl⟩
    · split
      · exact ⟨h.weaken rfl rfl (fun _ => id) (fun _ => id), rfl, .refl _, Iff.rfl, rfl⟩
      · exact ⟨h, .refl w⟩

theorem calls_transactionStatus (actionHash : Option Bytes) (transactionId : Bytes)
    (status : TransactionStatusResult) :
    (w.transactionStatus actionHash transactionId status).calls = w.calls := by
  unfold transactionStatus
  split
  · rfl
  · dsimp only
    split
    · rfl
    · split <;> rfl

/-- A failure that is reported of a transaction that the client keeps blocks the lane. -/
theorem blocked_transactionStatus {actionHash : Option Bytes} {transactionId : Bytes}
    {status : TransactionStatusResult}
    (hfailed : status.reportsFailure (status.receipt actionHash) = true)
    (hkept : w.walletTransactionNonces transactionId = some taken) :
    ∃ blockedNonce ≤ taken.2,
      (w.transactionStatus actionHash transactionId status).walletBlockedNonces
      taken.1 = some blockedNonce := by
  have hblocks := status.blocks_of_reportsFailure hfailed
  simp only [transactionStatus, hkept, hblocks, if_true]
  obtain ⟨least, hleast, hle, -⟩ := lowerBlock_self w.walletBlockedNonces taken.1 taken.2
  exact ⟨least, hle, hleast⟩

omit [DecidableEq Lane] in
theorem Locked.report (h : w.Locked) (transactionId : Bytes) (failed : Bool) :
    (w.report transactionId failed).Locked := by
  unfold WalletLanes.report
  split
  · have hstanding : WalletCall.standing ∘ WalletCall.report transactionId =
        (WalletCall.standing : WalletCall Lane → _) := by
      funext phase
      cases phase <;> rfl
    refine ⟨by simpa [hstanding] using h.orderly, fun {call signerKey localNonce} hcall => ?_⟩
    simp only [List.getElem?_map, Option.map_eq_some_iff] at hcall
    obtain ⟨phase, hphase, heq⟩ := hcall
    cases phase <;> simp only [WalletCall.report, reduceCtorEq] at heq
    exact h.looked (heq ▸ hphase)
  · exact h

omit [DecidableEq Lane] in
theorem held_report (transactionId : Bytes) (failed : Bool) :
    ((w.report transactionId failed).ledger WalletCall.outstanding).held taken ↔
    w.Outstanding taken := by
  unfold WalletLanes.report
  split
  · simp [ledger, Outstanding, WalletCall.outstanding_report]
  · rfl

theorem Locked.step (h : w.Locked) (event : WalletEvent Lane) : (w.step event).Locked :=
  (step_spec WalletCall.counts_outstanding h event).1

theorem Locked.status (h : w.Locked) (actionHash : Option Bytes) (transactionId : Bytes)
    (status : TransactionStatusResult) (failed : Bool) :
    ((w.transactionStatus actionHash transactionId status).report transactionId failed).Locked :=
  (transactionStatus_spec WalletCall.outstanding h actionHash transactionId status).1.report ..

/-! ## No nonce twice

A lane that goes on from its own next nonce cannot repeat an outstanding one. A lane that goes by
the chain can: its next nonce is gone after a nonce was given back, and after it was blocked. -/

variable {event : WalletEvent Lane}

/-- The next nonces are above all outstanding ones. -/
def Ahead (w : WalletLanes Lane) : Prop :=
  (w.ledger WalletCall.outstanding).Ahead

theorem Ahead.step (hlocked : w.Locked) (h : w.Ahead) (hclear : w.RestartsClear event) :
    (w.step event).Ahead := by
  cases (step_spec WalletCall.counts_outstanding hlocked event).2 with
  | keeps hreserves hkeeps | waits signerKey chainNonce hreserves hreads hkeeps =>
    exact h.shrink (fun hsome => (congrFun hkeeps.next _).symm.trans hsome) hkeeps.held.mp
  | continues hreserves hlocal hopen hnext hblocked hheld hchain =>
    exact Ledger.Ahead.take h hnext (hheld _).mp (h hlocal)
  | restarts hreserves hreads hnext hblocked hheld hchain =>
    exact Ledger.Ahead.take h hnext (hheld _).mp (hclear _ hreads (by simp [hreserves]) _)
  | loses signerKey nonce hreserves hnext hblocked hpassed hheld hchain =>
    exact h.shrink hnext fun hafter => (hheld _).mpr (.inr hafter)

theorem Ahead.reserves_fresh (hlocked : w.Locked) (h : w.Ahead) (hclear : w.RestartsClear event)
    (hreserves : w.reserves event = some taken) : ¬ w.Outstanding taken := by
  intro hout
  cases (step_spec WalletCall.counts_outstanding hlocked event).2 with
  | keeps hnone | waits _ _ hnone | loses _ _ hnone =>
    rw [hreserves] at hnone
    cases hnone
  | continues htaken hlocal =>
    obtain rfl := Option.some.inj (hreserves.symm.trans htaken)
    exact Nat.lt_irrefl _ (h hlocal hout)
  | restarts htaken hreads =>
    obtain rfl := Option.some.inj (hreserves.symm.trans htaken)
    exact Nat.lt_irrefl _ (hclear _ hreads (by simp [hreserves]) _ hout)

theorem Ahead.status (hlocked : w.Locked) (h : w.Ahead) (actionHash : Option Bytes)
    (transactionId : Bytes) (status : TransactionStatusResult) (failed : Bool) :
    ((w.transactionStatus actionHash transactionId status).report transactionId failed).Ahead := by
  obtain ⟨-, hkeeps⟩ := transactionStatus_spec WalletCall.outstanding hlocked actionHash
    transactionId status
  have hnext : ((w.transactionStatus actionHash transactionId status).report
      transactionId failed).nextNonces = w.nextNonces := by
    rw [← hkeeps.next]
    unfold WalletLanes.report
    split <;> rfl
  exact h.shrink (fun hsome => (congrFun hnext _).symm.trans hsome) fun hheld =>
    hkeeps.held.mp ((held_report transactionId failed).mp hheld)

/-! ## No gap

A lane has handed out all nonces from the last reading of the chain up to its next one. They stay
unresolved unless the wallet refuses to sign, in which case nothing is given back, or the backend
rejects the action and the lane has already gone on, in which case nothing is blocked, or a
transaction is reported as failed, which blocks the lane as long as the client keeps the
transaction. -/

/-- From the last reading up to the next nonce of a lane everything is unresolved, or the lane is
blocked there or below. -/
def Gapless (w : WalletLanes Lane) : Prop :=
  (w.ledger WalletCall.unresolved).Gapless

omit [DecidableEq Lane] in
/-- A lane that is not blocked answers for all it has handed out since the last reading. -/
theorem Gapless.continue (h : w.Gapless) (hlocal : w.nextNonces signerKey = some nonce)
    (hopen : w.walletBlockedNonces signerKey = none) {chainNonce other : ℕ}
    (hread : w.chainNonces signerKey = some chainNonce) (hle : chainNonce ≤ other)
    (hlt : other < nonce) :
    w.Unresolved (signerKey, other) := by
  refine (h.accounts hlocal hread hle hlt).resolve_right ?_
  rintro ⟨-, blockedNonce, -, hblocked⟩
  cases hopen.symm.trans hblocked

theorem Gapless.step (hlocked : w.Locked) (h : w.Gapless) (hloses : w.LosesNothing event) :
    (w.step event).Gapless := by
  cases (step_spec WalletCall.counts_unresolved hlocked event).2 with
  | keeps hreserves hkeeps =>
    exact h.keep hkeeps.next hkeeps.blocked hkeeps.chain id hkeeps.held.mpr
  | waits signerKey chainNonce hreserves hreads hkeeps =>
    have hlooked := Ledger.Gapless.look h (hloses.1 _ hreads)
    exact hlooked.keep hkeeps.next hkeeps.blocked hkeeps.chain id hkeeps.held.mpr
  | @continues signerKey nonce hreserves hlocal hopen hnext hblocked hheld hchain =>
    obtain ⟨start, hstart⟩ := h.started hlocal
    refine Ledger.Gapless.take h hnext (fun other _ => congrFun hblocked other)
      ((congrFun hchain _).trans hstart) (fun other _ => congrFun hchain other) id
      (fun _ hbefore => (hheld _).mpr (.inr hbefore)) fun {other} hle hlt => (hheld _).mpr ?_
    rcases Nat.lt_or_eq_of_le hlt with hlt | rfl
    · exact .inr (Gapless.continue h hlocal hopen hstart hle hlt)
    · exact .inl rfl
  | @restarts signerKey restart hreserves hreads hnext hblocked hheld hchain =>
    refine Ledger.Gapless.take h hnext
      (fun other hother => (congrFun hblocked other).trans (update_of_ne hother _ _))
      ((congrFun hchain _).trans (update_self ..))
      (fun other hother => (congrFun hchain other).trans (update_of_ne hother _ _)) id
      (fun _ hbefore => (hheld _).mpr (.inr hbefore)) fun {other} hle hlt => (hheld _).mpr (.inl ?_)
    rw [Nat.le_antisymm hlt hle]
  | loses signerKey nonce hreserves hnext hblocked hpassed hheld hchain =>
    refine Ledger.Gapless.lose h hnext hblocked hchain id fun hsome hstart hle hlt hbefore => ?_
    rcases (hheld _).mp hbefore with heq | hafter
    · obtain ⟨rfl, rfl⟩ := Prod.mk.inj heq
      exact .inr ⟨trivial, hpassed hloses hstart hle hsome hlt⟩
    · exact .inl hafter

theorem Gapless.status (hlocked : w.Locked) (h : w.Gapless) {actionHash : Option Bytes}
    {transactionId : Bytes} {status : TransactionStatusResult} {failed : Bool}
    (hreports : failed = true → status.reportsFailure (status.receipt actionHash) = true)
    (hkept : failed = true → w.ReportsKept transactionId) :
    ((w.transactionStatus actionHash transactionId status).report
      transactionId failed).Gapless := by
  obtain ⟨-, hkeeps⟩ :=
    transactionStatus_spec WalletCall.unresolved hlocked actionHash transactionId status
  cases failed with
  | false => exact h.keep hkeeps.next hkeeps.blocked hkeeps.chain id hkeeps.held.mpr
  | true =>
    refine h.lose (fun hsome => (congrFun hkeeps.next _).symm.trans hsome) hkeeps.blocked
      hkeeps.chain id ?_
    rintro key next start nonce hsome hstart hle hlt ⟨call, hcall, hbefore⟩
    have hmem : call ∈ (w.transactionStatus actionHash transactionId status).calls := by
      rwa [calls_transactionStatus]
    rcases WalletCall.unresolved_report hbefore with hafter | haccepted
    · exact .inl ⟨_, List.mem_map_of_mem hmem, hafter⟩
    · refine .inr ⟨trivial, ?_⟩
      by_cases hpassed : w.Passed (key, nonce)
      · exact blocked_transactionStatus (hreports rfl) (hkept rfl call hcall _ haccepted hpassed)
      · exact hkeeps.blocked.exists_le (Ledger.exists_block_of_not_passed hpassed hstart hle
          ((congrFun hkeeps.next _).symm.trans hsome) hlt)

/-- What lies between the last reading and the nonce that is taken is unresolved. -/
theorem Gapless.reserves (hlocked : w.Locked) (h : w.Gapless) {chainNonce other : ℕ}
    (hreserves : w.reserves event = some (signerKey, nonce))
    (hread : (w.step event).chainNonces signerKey = some chainNonce) (hle : chainNonce ≤ other)
    (hlt : other < nonce) : w.Unresolved (signerKey, other) := by
  cases (step_spec WalletCall.counts_unresolved hlocked event).2 with
  | keeps hnone | waits _ _ hnone | loses _ _ hnone =>
    rw [hreserves] at hnone
    cases hnone
  | continues htaken hlocal hopen hnext hblocked hheld hchain =>
    cases hreserves.symm.trans htaken
    rw [hchain] at hread
    exact Gapless.continue h hlocal hopen hread hle hlt
  | restarts htaken hreads hnext hblocked hheld hchain =>
    cases hreserves.symm.trans htaken
    rw [hchain, update_self] at hread
    cases hread
    omega

end WalletLanes

end JamScript.Client
