import JamScript.Client.WalletLane

/-!
# What happens on an ownership lane

Between its calls an ownership action is represented by an object that holds its nonce: first a
prepared action, then a signed one. `Keeps`, `Releases` and `Takes` are what a step does to the
lanes. A step that releases gives one nonce back: if the lane has gone on, it is blocked there,
otherwise it forgets its next nonce. A step that takes a nonce first takes up a blocked lane again
if the chain has passed the block.
-/

namespace JamScript.Client

open Codec Function Ledgers

variable {Lane : Type}

/-- The nonce for which a submission still answers: about to be sent, sent, not definitely
rejected. -/
def SubmitCall.outstanding : SubmitCall Lane → Option (Lane × ℕ)
  | .reporting _ data | .submitting _ data => some (data.nonceLane, data.nonce)
  | .ended nonceLane nonce outcome => if outcome = .rejected then none else some (nonceLane, nonce)
  | .failed => none

/-- The nonce that was sent to the backend, unless it was definitely rejected. -/
def SubmitCall.sent : SubmitCall Lane → Option (Lane × ℕ)
  | .submitting _ data => some (data.nonceLane, data.nonce)
  | .ended nonceLane nonce outcome => if outcome = .rejected then none else some (nonceLane, nonce)
  | _ => none

/-- The nonce that was sent and neither definitely rejected nor reported as failed. An action that
was reported as applied has used its nonce. -/
def SubmitCall.unresolved : SubmitCall Lane → Option (Lane × ℕ)
  | .submitting _ data => some (data.nonceLane, data.nonce)
  | .ended nonceLane nonce outcome =>
    if outcome = .rejected ∨ outcome = .failed then none else some (nonceLane, nonce)
  | _ => none

/-- The nonce of a submission that was answered and is unresolved. -/
def SubmitCall.settled : SubmitCall Lane → Option (Lane × ℕ)
  | .ended nonceLane nonce outcome =>
    if outcome = .rejected ∨ outcome = .failed then none else some (nonceLane, nonce)
  | _ => none

/-- The nonce of a submission that has been let through and is not sent yet. -/
def SubmitCall.checked : SubmitCall Lane → Option (Lane × ℕ)
  | .reporting _ data => some (data.nonceLane, data.nonce)
  | _ => none

theorem SubmitCall.outstanding_of_sent {call : SubmitCall Lane} {taken : Lane × ℕ}
    (h : call.sent = some taken) : call.outstanding = some taken := by
  cases call <;> simp_all [sent, outstanding]

theorem SubmitCall.unresolved_of_settled {call : SubmitCall Lane} {taken : Lane × ℕ}
    (h : call.settled = some taken) : call.unresolved = some taken := by
  cases call with
  | ended nonceLane nonce outcome => exact h
  | _ => cases h

theorem SubmitCall.outstanding_report (transactionId : Bytes) (call : SubmitCall Lane) :
    (call.report transactionId).outstanding = call.outstanding := by
  cases call with
  | ended nonceLane nonce outcome =>
    cases outcome with
    | accepted taken =>
      simp only [report, Outcome.report]
      split <;> simp [outstanding]
    | ambiguous | rejected | failed => rfl
  | _ => rfl

theorem SubmitCall.checked_report (transactionId : Bytes) (call : SubmitCall Lane) :
    (call.report transactionId).checked = call.checked := by
  cases call <;> rfl

/-- A report resolves no other submissions than those that were accepted under the transaction. -/
theorem SubmitCall.settled_report {transactionId : Bytes} {call : SubmitCall Lane}
    {taken : Lane × ℕ} (h : call.settled = some taken) :
    (call.report transactionId).settled = some taken ∨ call.acceptedAs transactionId =
      some taken := by
  cases call with
  | ended nonceLane nonce outcome =>
    cases outcome with
    | accepted accepted =>
      by_cases hsame : accepted = transactionId
      · right
        simpa [settled, acceptedAs, hsame] using h
      · left
        simpa [report, Outcome.report, hsame] using h
    | ambiguous | rejected | failed => exact .inl h
  | _ => cases h

namespace OwnershipLanes

variable {s s' s'' : OwnershipLanes Lane} {call nonce : ℕ} {nonceLane : Lane} {taken : Lane × ℕ}

def Reserved (s : OwnershipLanes Lane) (taken : Lane × ℕ) : Prop :=
  s.ownershipReservation taken.1 taken.2 ≠ none

/-- An object holds the nonce, or a submission answers for it. -/
def Outstanding (s : OwnershipLanes Lane) (taken : Lane × ℕ) : Prop :=
  s.Reserved taken ∨ ∃ call ∈ s.submitCalls, call.outstanding = some taken

/-- The nonce went to the backend and was not definitely rejected. -/
def Sent (s : OwnershipLanes Lane) (taken : Lane × ℕ) : Prop :=
  ∃ call ∈ s.submitCalls, call.sent = some taken

/-- The nonce went to the backend and is unresolved. -/
def Unresolved (s : OwnershipLanes Lane) (taken : Lane × ℕ) : Prop :=
  ∃ call ∈ s.submitCalls, call.unresolved = some taken

/-- An object holds the nonce, or a submission of it was answered and is unresolved. -/
def Held (s : OwnershipLanes Lane) (taken : Lane × ℕ) : Prop :=
  s.Reserved taken ∨ ∃ call ∈ s.submitCalls, call.settled = some taken

def Checked (s : OwnershipLanes Lane) (taken : Lane × ℕ) : Prop :=
  ∃ call ∈ s.submitCalls, call.checked = some taken

theorem Sent.outstanding (h : s.Sent taken) : s.Outstanding taken :=
  let ⟨call, hmem, hsent⟩ := h
  .inr ⟨call, hmem, SubmitCall.outstanding_of_sent hsent⟩

theorem Held.reserved_or_unresolved (h : s.Held taken) : s.Reserved taken ∨ s.Unresolved taken :=
  h.imp_right fun ⟨call, hmem, hsettled⟩ => ⟨call, hmem, SubmitCall.unresolved_of_settled hsettled⟩

/-- The lanes as a ledger of the nonces that are held, in one of the two senses. -/
def ledger (s : OwnershipLanes Lane) (held : Lane × ℕ → Prop) : Ledger Lane where
  next := s.nextOwnershipNonces
  blocked := s.ownershipBlockedNonces
  start := s.chainNonces
  held := held
  lost taken := taken ∈ s.rewound

theorem getElem?_filter_keys {α : Type} (m : Std.ExtTreeMap ℕ α) (p : ℕ → Bool) (key : ℕ) :
    (m.filter fun other _ => p other)[key]? = if p key then m[key]? else none := by
  rw [Std.ExtTreeMap.getElem?_filter]
  simp only [Std.ExtTreeMap.getKey_eq]
  cases m[key]? with
  | none => simp
  | some value => simp [Option.filter]

/-! ## Kinds of steps -/

/-- No nonce is taken or given back. -/
structure Keeps (s s' : OwnershipLanes Lane) : Prop where
  next : s'.nextOwnershipNonces = s.nextOwnershipNonces
  blocked : Lowers s.ownershipBlockedNonces s'.ownershipBlockedNonces
  outstanding : ∀ {taken}, s'.Outstanding taken → s.Outstanding taken
  held : ∀ {taken}, s.Held taken → s'.Held taken
  /-- a submission is let through only below the block -/
  checked : ∀ {taken}, s'.Checked taken →
    s.Checked taken ∨ ∀ blockedNonce, s.ownershipBlockedNonces taken.1 = some blockedNonce →
    taken.2 < blockedNonce
  chain : s'.chainNonces = s.chainNonces
  rewound : s'.rewound = s.rewound

/-- One nonce is given back. -/
structure Releases (s : OwnershipLanes Lane) (released : Lane × ℕ) (s' : OwnershipLanes Lane) :
    Prop where
  next : ∀ {lane next}, s'.nextOwnershipNonces lane = some next →
    s.nextOwnershipNonces lane = some next
  blocked : Lowers s.ownershipBlockedNonces s'.ownershipBlockedNonces
  /-- a lane that has gone on is blocked -/
  passed : ∀ {next}, s'.nextOwnershipNonces released.1 = some next → released.2 < next →
    ∃ blockedNonce ≤ released.2, s'.ownershipBlockedNonces released.1 = some blockedNonce
  outstanding : ∀ {taken}, s'.Outstanding taken → s.Outstanding taken
  held : ∀ {taken}, s.Held taken → taken = released ∨ s'.Held taken
  checked : ∀ {taken}, s'.Checked taken → s.Checked taken
  chain : s'.chainNonces = s.chainNonces
  rewound : s'.rewound = released :: s.rewound

theorem Keeps.refl (s : OwnershipLanes Lane) : Keeps s s where
  next := rfl
  blocked := .refl _
  outstanding := id
  held := id
  checked := .inl
  chain := rfl
  rewound := rfl

/-- The nonces of the lanes do not depend on the other fields. -/
theorem Keeps.of_same (hnext : s'.nextOwnershipNonces = s.nextOwnershipNonces)
    (hblocked : Lowers s.ownershipBlockedNonces s'.ownershipBlockedNonces)
    (hreservations : s'.ownershipReservations = s.ownershipReservations)
    (hcalls : s'.submitCalls = s.submitCalls) (hchain : s'.chainNonces = s.chainNonces)
    (hrewound : s'.rewound = s.rewound) : Keeps s s' where
  next := hnext
  blocked := hblocked
  outstanding h := by
    unfold Outstanding Reserved ownershipReservation at h ⊢
    rwa [hreservations, hcalls] at h
  held h := by
    unfold Held Reserved ownershipReservation at h ⊢
    rwa [hreservations, hcalls]
  checked h := by
    unfold Checked at h ⊢
    rw [hcalls] at h
    exact .inl h
  chain := hchain
  rewound := hrewound

theorem Keeps.trans (h : Keeps s s') (h' : Keeps s' s'') : Keeps s s'' where
  next := h'.next.trans h.next
  blocked := h.blocked.trans h'.blocked
  outstanding hout := h.outstanding (h'.outstanding hout)
  held hheld := h'.held (h.held hheld)
  checked hafter := by
    rcases h'.checked hafter with hbetween | hbelow
    · exact h.checked hbetween
    · refine .inr fun blockedNonce hblocked => ?_
      obtain ⟨lower, hle, hlower⟩ := h.blocked _ _ hblocked
      exact (hbelow lower hlower).trans_le hle
  chain := h'.chain.trans h.chain
  rewound := h'.rewound.trans h.rewound

/-- Steps before a step that keeps the lanes, when they let no submission through. -/
theorem Keeps.releases (h : Keeps s s') (hchecked : ∀ {taken}, s'.Checked taken → s.Checked taken)
    (h' : Releases s' taken s'') : Releases s taken s'' where
  next hsome := h.next ▸ h'.next hsome
  blocked := h.blocked.trans h'.blocked
  passed := h'.passed
  outstanding hout := h.outstanding (h'.outstanding hout)
  held hheld := h'.held (h.held hheld)
  checked hafter := hchecked (h'.checked hafter)
  chain := h'.chain.trans h.chain
  rewound := h'.rewound.trans (congrArg _ h.rewound)

variable [DecidableEq Lane]

/-- The next nonce of a lane is taken after a reading of the chain. -/
structure Takes (s : OwnershipLanes Lane) (nonceLane : Lane) (chainNonce nonce : ℕ) (built : Bool)
    (s' : OwnershipLanes Lane) : Prop where
  choice : nonce = chooseNonce (s.nextOwnershipNonces nonceLane) chainNonce
  /-- the chain has passed the block -/
  unblocked : ∀ blockedNonce, s.ownershipBlockedNonces nonceLane = some blockedNonce →
    blockedNonce < chainNonce
  next : s'.nextOwnershipNonces = update s.nextOwnershipNonces nonceLane (some (nonce + 1))
  blocked : s'.ownershipBlockedNonces = update s.ownershipBlockedNonces nonceLane none
  outstanding : ∀ {taken}, s'.Outstanding taken → taken = (nonceLane, nonce) ∨ s.Outstanding taken
  /-- what the chain has passed is forgotten -/
  held : ∀ {taken}, s.Held taken → (taken.1 = nonceLane → chainNonce ≤ taken.2) → s'.Held taken
  taken : built = true → s'.Held (nonceLane, nonce)
  calls : s'.submitCalls = s.submitCalls
  chain : s'.chainNonces = update s.chainNonces nonceLane (some chainNonce)
  rewound : s'.rewound = s.rewound

/-- What a step does to the nonces of the lanes. -/
inductive Effect (s : OwnershipLanes Lane) : OwnershipEvent Lane → OwnershipLanes Lane → Prop where
  | keeps {event s'} (hreserves : s.reserves event = none) (h : Keeps s s') : Effect s event s'
  | releases {event s'} (released : Lane × ℕ) (hreserves : s.reserves event = none)
      (h : Releases s released s') : Effect s event s'
  /-- the lane stays blocked -/
  | waits {event nonceLane chainNonce s'} (hreserves : s.reserves event = none)
      (hreads : s.reads event = some (nonceLane, chainNonce))
      (h : Keeps { s with chainNonces := update s.chainNonces nonceLane (some chainNonce) } s') :
      Effect s event s'
  | takes {event nonceLane chainNonce nonce s'} (hreserves : s.reserves event =
    some (nonceLane, nonce))
      (hreads : s.reads event = some (nonceLane, chainNonce))
      (h : Takes s nonceLane chainNonce nonce event.builds s') : Effect s event s'

/-! ## Reservations -/

section Reservations

variable {reservation expected : Reservation}

theorem ownershipReservation_set (lane : Lane) (other : ℕ) :
    (s.setOwnershipReservation nonceLane nonce reservation).ownershipReservation lane other =
      if lane = nonceLane ∧ other = nonce then some reservation else s.ownershipReservation
        lane other := by
  unfold ownershipReservation setOwnershipReservation
  by_cases hlane : lane = nonceLane
  · subst hlane
    simp [Std.ExtTreeMap.getElem?_insert, eq_comm (a := other)]
  · simp [hlane, update_of_ne]

theorem ownershipReservation_delete (lane : Lane) (other : ℕ) :
    (s.deleteOwnershipReservation nonceLane nonce expected).ownershipReservation lane other =
      if lane = nonceLane ∧ other = nonce ∧ s.ownershipReservation nonceLane nonce =
        some expected then none
      else s.ownershipReservation lane other := by
  unfold deleteOwnershipReservation
  split
  · next hholds =>
    simp only [hholds, and_true]
    unfold ownershipReservation
    by_cases hlane : lane = nonceLane
    · subst hlane
      simp [Std.ExtTreeMap.getElem?_erase, eq_comm (a := other)]
    · simp [hlane, update_of_ne]
  · next hholds => simp [hholds]

theorem reserved_set (hreserved : s.Reserved (nonceLane, nonce)) :
    (s.setOwnershipReservation nonceLane nonce reservation).Reserved taken ↔ s.Reserved taken := by
  unfold Reserved at hreserved ⊢
  rw [ownershipReservation_set]
  split
  · next heq =>
    rw [heq.1, heq.2]
    simpa using hreserved
  · rfl

theorem reserved_of_delete
    (h : (s.deleteOwnershipReservation nonceLane nonce expected).Reserved taken) :
    s.Reserved taken := by
  unfold Reserved at h ⊢
  rw [ownershipReservation_delete] at h
  split at h
  · exact absurd rfl h
  · exact h

theorem reserved_delete (h : s.Reserved taken) (hne : taken ≠ (nonceLane, nonce)) :
    (s.deleteOwnershipReservation nonceLane nonce expected).Reserved taken := by
  unfold Reserved at h ⊢
  rw [ownershipReservation_delete, if_neg]
  · exact h
  · rintro ⟨hlane, hnonce, -⟩
    exact hne (Prod.ext hlane hnonce)

end Reservations

/-! ## The operations -/

omit [DecidableEq Lane] in
theorem not_passed_of_hasHigherReservation {next : ℕ}
    (h : s.hasHigherReservation nonceLane nonce = false)
    (hnext : s.nextOwnershipNonces nonceLane = some next) : next ≤ nonce + 1 := by
  simp only [hasHigherReservation, Bool.or_eq_false_iff, hnext, Option.any_some,
    decide_eq_false_iff_not] at h
  omega

theorem deleteOwnershipReservation_eq (s : OwnershipLanes Lane) (nonceLane : Lane) (nonce : ℕ)
    (expected : Reservation) : ∃ reservations,
    s.deleteOwnershipReservation nonceLane nonce expected =
      { s with ownershipReservations := reservations } := by
  unfold deleteOwnershipReservation
  split
  · exact ⟨_, rfl⟩
  · exact ⟨_, rfl⟩

theorem submitCalls_delete {expected : Reservation} :
    (s.deleteOwnershipReservation nonceLane nonce expected).submitCalls = s.submitCalls := by
  obtain ⟨reservations, h⟩ := s.deleteOwnershipReservation_eq nonceLane nonce expected
  rw [h]

theorem outstanding_of_delete {nonceLane : Lane} {nonce : ℕ} {expected : Reservation}
    (h : (s.deleteOwnershipReservation nonceLane nonce expected).Outstanding taken) :
    s.Outstanding taken := by
  unfold Outstanding at h ⊢
  rw [submitCalls_delete] at h
  exact h.imp_left reserved_of_delete

theorem held_delete (nonceLane : Lane) (nonce : ℕ) (expected : Reservation) (h : s.Held taken) :
    taken = (nonceLane, nonce) ∨ (s.deleteOwnershipReservation nonceLane nonce expected).Held
      taken := by
  by_cases heq : taken = (nonceLane, nonce)
  · exact .inl heq
  · unfold Held at h ⊢
    rw [submitCalls_delete]
    exact .inr (h.imp_left fun hreserved => reserved_delete hreserved heq)

/-- A lane that gets a nonce back is blocked there or forgets its next nonce. -/
theorem rewind_spec (s : OwnershipLanes Lane) (nonceLane : Lane) (nonce : ℕ)
    (expected : Reservation) :
    Releases s (nonceLane, nonce)
      ((s.deleteOwnershipReservation nonceLane nonce expected).rewindOwnershipNonce
        nonceLane nonce) := by
  have hout {taken : Lane × ℕ} :
      (s.deleteOwnershipReservation nonceLane nonce expected).Outstanding taken →
      s.Outstanding taken :=
    outstanding_of_delete
  have hheld {taken : Lane × ℕ} (h : s.Held taken) := held_delete nonceLane nonce expected h
  have hchecked {taken : Lane × ℕ} :
      (s.deleteOwnershipReservation nonceLane nonce expected).Checked taken → s.Checked taken := by
    unfold Checked
    rw [submitCalls_delete]
    exact id
  obtain ⟨reservations, heq⟩ := s.deleteOwnershipReservation_eq nonceLane nonce expected
  rw [heq] at hout hheld hchecked ⊢
  unfold rewindOwnershipNonce
  dsimp only
  split
  · refine ⟨id, lowers_lowerBlock _ _ _, fun _ _ => ?_, hout, hheld, hchecked, rfl, rfl⟩
    obtain ⟨least, hleast, hle, -⟩ := lowerBlock_self s.ownershipBlockedNonces nonceLane nonce
    exact ⟨least, hle, hleast⟩
  · next hhigher =>
    refine ⟨fun hnext => (forgetLast_eq_some hnext).1, .refl _, fun hnext hlt => ?_, hout,
      hheld, hchecked, rfl, rfl⟩
    obtain ⟨hsome, hne⟩ := forgetLast_eq_some hnext
    have hle := not_passed_of_hasHigherReservation (Bool.eq_false_iff.mpr hhigher) hsome
    have hlt : nonce < _ := hlt
    exact absurd ⟨rfl, by omega⟩ hne

theorem release_spec (s : OwnershipLanes Lane) (data : PreparedOwnershipActionData Lane)
    (holder : Reservation) :
    Keeps s (s.release data holder) ∨ Releases s (data.nonceLane, data.nonce)
      (s.release data holder) := by
  unfold release
  split
  · exact .inr (s.rewind_spec data.nonceLane data.nonce holder)
  · exact .inl (.refl s)

/-- At most one nonce is given back. -/
def Loses (s s' : OwnershipLanes Lane) : Prop :=
  Keeps s s' ∨ ∃ released, Releases s released s'

/-- Giving back after a step that keeps the lanes and lets no submission through. -/
theorem Keeps.release (h : Keeps s s') (hchecked : ∀ {taken}, s'.Checked taken → s.Checked taken)
    (data : PreparedOwnershipActionData Lane) (holder : Reservation) :
    Loses s (s'.release data holder) := by
  rcases s'.release_spec data holder with hkeeps | hreleases
  · exact .inl (h.trans hkeeps)
  · exact .inr ⟨_, h.releases hchecked hreleases⟩

theorem abandonPrepared_spec (s : OwnershipLanes Lane) (prepared : ℕ) :
    Loses s (s.abandonPreparedOwnershipAction prepared) := by
  unfold abandonPreparedOwnershipAction
  split
  · have hkeeps : Keeps s
        { s with preparedOwnershipActions := s.preparedOwnershipActions.set prepared none } :=
      .of_same rfl (.refl _) rfl rfl rfl rfl
    exact hkeeps.release id _ _
  · exact .inl (.refl s)

/-- After a step that keeps the lanes and lets no submission through, an action is abandoned. -/
theorem Keeps.abandonSigned (h : Keeps s s') (hchecked : ∀ {taken}, s'.Checked taken →
    s.Checked taken)
    (signed : ℕ) : Loses s (s'.abandonSignedOwnershipAction signed) := by
  unfold abandonSignedOwnershipAction
  split
  · have hkeeps : Keeps s'
        { s' with signedOwnershipActions := s'.signedOwnershipActions.set signed none } :=
      .of_same rfl (.refl _) rfl rfl rfl rfl
    exact (h.trans hkeeps).release hchecked _ _
  · exact .inl h

theorem Loses.effect {event : OwnershipEvent Lane} (h : Loses s s')
    (hreserves : s.reserves event = none) :
    s.Effect event s' := by
  rcases h with hkeeps | ⟨released, hreleases⟩
  · exact .keeps hreserves hkeeps
  · exact .releases released hreserves hreleases

theorem recordSignature_spec (s : OwnershipLanes Lane) (prepared : ℕ)
    (data : PreparedOwnershipActionData Lane) (actionHash : Bytes) :
    Keeps s (s.recordSignature prepared data actionHash) := by
  unfold recordSignature
  dsimp only
  split
  · next hholds =>
    have hreserved : s.Reserved (data.nonceLane, data.nonce) := by
      unfold Reserved
      exact fun hnone => nomatch hholds.symm.trans hnone
    refine ⟨rfl, .refl _, fun hout => ?_, fun hheld => ?_, .inl, rfl, rfl⟩
    · exact hout.imp_left (reserved_set hreserved).mp
    · exact hheld.imp_left (reserved_set hreserved).mpr
  · exact .of_same rfl (.refl _) rfl rfl rfl rfl

theorem submit_spec (s : OwnershipLanes Lane) (signed : ℕ) :
    Loses s (s.submitSignedOwnershipAction signed) := by
  unfold submitSignedOwnershipAction
  split
  · next data hdata =>
    split
    · next hholds =>
      split
      · exact (Keeps.refl s).abandonSigned id signed
      · next hopen =>
        left
        have hreserved : s.Reserved (data.nonceLane, data.nonce) := by
          unfold Reserved
          exact fun hnone => nomatch hholds.symm.trans hnone
        refine ⟨rfl, .refl _, fun hout => ?_, fun hheld => ?_, fun hafter => ?_, rfl, rfl⟩
        · rcases hout with hout | ⟨phase, hphase, hout⟩
          · exact .inl hout
          · rcases List.mem_append.mp hphase with hphase | hphase
            · exact .inr ⟨phase, hphase, hout⟩
            · obtain rfl := List.mem_singleton.mp hphase
              cases hout
              exact .inl hreserved
        · exact hheld.imp_right fun ⟨phase, hphase, hsettled⟩ =>
            ⟨phase, List.mem_append_left _ hphase, hsettled⟩
        · obtain ⟨phase, hphase, hafter⟩ := hafter
          rcases List.mem_append.mp hphase with hphase | hphase
          · exact .inl ⟨phase, hphase, hafter⟩
          · obtain rfl := List.mem_singleton.mp hphase
            cases hafter
            refine .inr fun blockedNonce hblocked => ?_
            simpa [hblocked] using hopen
    · exact .inl (.refl s)
  · exact .inl (.refl s)

omit [DecidableEq Lane] in
/-- A submission moves on. -/
theorem Keeps.setCall {before : SubmitCall Lane} (after : SubmitCall Lane)
    (hcall : s.submitCalls[call]? = some before)
    (hout : after.outstanding = none ∨ after.outstanding = before.outstanding)
    (hsettled : before.settled = none) (hchecked : after.checked = none) :
    Keeps s { s with submitCalls := s.submitCalls.set call after } ∧
      ∀ {taken}, ({ s with submitCalls := s.submitCalls.set call after } :
        OwnershipLanes Lane).Checked taken → s.Checked taken := by
  have hkept {taken : Lane × ℕ}
      (hafter : ({ s with submitCalls := s.submitCalls.set call after } :
        OwnershipLanes Lane).Checked taken) :
      s.Checked taken := by
    unfold Checked at hafter ⊢
    rw [exists_set_call_iff hcall] at hafter
    rw [exists_call_iff hcall]
    exact .inr (hafter.resolve_left (by simp [hchecked]))
  refine ⟨⟨rfl, .refl _, fun h => ?_, fun h => ?_, fun h => .inl (hkept h), rfl, rfl⟩, hkept⟩
  · refine h.imp_right fun hcalls => ?_
    rw [exists_set_call_iff hcall] at hcalls
    rw [exists_call_iff hcall]
    refine hcalls.imp_left fun hafter => ?_
    rcases hout with hnone | hsame
    · rw [hnone] at hafter
      cases hafter
    · exact hsame ▸ hafter
  · refine h.imp_right fun hcalls => ?_
    rw [exists_call_iff hcall] at hcalls
    rw [exists_set_call_iff hcall]
    exact .inr (hcalls.resolve_left (by simp [hsettled]))

/-- A nonce that a settled submission answers for needs no object. -/
theorem Keeps.delete {expected : Reservation}
    (hsettled : ∃ call ∈ s.submitCalls, call.settled = some (nonceLane, nonce)) :
    Keeps s (s.deleteOwnershipReservation nonceLane nonce expected) := by
  have hout {taken : Lane × ℕ} :
      (s.deleteOwnershipReservation nonceLane nonce expected).Outstanding taken →
      s.Outstanding taken :=
    outstanding_of_delete
  have hheld {taken : Lane × ℕ} (h : s.Held taken) :
      (s.deleteOwnershipReservation nonceLane nonce expected).Held taken := by
    rcases held_delete nonceLane nonce expected h with rfl | hheld
    · refine .inr ?_
      rw [submitCalls_delete]
      exact hsettled
    · exact hheld
  obtain ⟨reservations, heq⟩ := s.deleteOwnershipReservation_eq nonceLane nonce expected
  rw [heq] at hout hheld ⊢
  exact ⟨rfl, .refl _, hout, hheld, .inl, rfl, rfl⟩

theorem endSubmission_spec {signed : ℕ} {data : SignedOwnershipActionData Lane}
    {answer : Except SubmissionError Bytes}
    (haccepted : ∀ {transactionId}, answer = .ok transactionId →
      ∃ call ∈ s.submitCalls, call.settled = some (data.nonceLane, data.nonce)) :
    Loses s (s.endSubmission signed data answer) := by
  have hforget : Keeps s
    { s with signedOwnershipActions := s.signedOwnershipActions.set signed none } :=
    .of_same rfl (.refl _) rfl rfl rfl rfl
  unfold endSubmission
  cases answer with
  | ok transactionId =>
    have hrecord : Keeps s { s with
        signedOwnershipActions := s.signedOwnershipActions.set signed none
        ownershipTransactionNonces :=
          update s.ownershipTransactionNonces transactionId (some (data.nonceLane, data.nonce)) } :=
      .of_same rfl (.refl _) rfl rfl rfl rfl
    exact .inl (hrecord.trans (.delete (haccepted rfl)))
  | error error =>
    dsimp only
    split
    · exact hforget.release id _ _
    · split
      · exact .inl (.of_same rfl (lowers_lowerBlock _ _ _) rfl rfl rfl rfl)
      · exact .inl hforget

omit [DecidableEq Lane] in
theorem Loses.after (h : Keeps s s') (hchecked : ∀ {taken}, s'.Checked taken → s.Checked taken)
    (h' : Loses s' s'') : Loses s s'' := by
  rcases h' with hkeeps | ⟨released, hreleases⟩
  · exact .inl (h.trans hkeeps)
  · exact .inr ⟨released, h.releases hchecked hreleases⟩

theorem step_submitted (s : OwnershipLanes Lane) (call : ℕ)
    (answer : Except SubmissionError Bytes) :
    Loses s (s.step (.submitted call answer)) := by
  simp only [step]
  split
  · next signed data hcall =>
    obtain ⟨hended, hchecked⟩ :=
      Keeps.setCall (.ended data.nonceLane data.nonce (outcomeOf answer)) hcall
        (by simp only [SubmitCall.outstanding]; split <;> simp) rfl rfl
    refine .after hended hchecked (endSubmission_spec ?_)
    rintro transactionId rfl
    exact (exists_set_call_iff hcall _ _).mpr (.inl rfl)
  · exact .inl (.refl s)

theorem step_reported (s : OwnershipLanes Lane) (call : ℕ) (returned : Bool) :
    Loses s (s.step (.reported call returned)) := by
  simp only [step]
  split
  · next signed data hcall =>
    split
    · exact .inl (Keeps.setCall (.submitting signed data) hcall (.inr rfl) rfl rfl).1
    · obtain ⟨hfailed, hchecked⟩ := Keeps.setCall .failed hcall (.inl rfl) rfl rfl
      exact hfailed.abandonSigned hchecked signed
  · exact .inl (.refl s)

theorem step_signature (s : OwnershipLanes Lane) (call : ℕ) (answer : Option Bytes) :
    Loses s (s.step (.signature call answer)) := by
  simp only [step]
  split
  · next prepared data hcall =>
    cases answer with
    | some actionHash =>
      have hclosed : Keeps s { s with signCalls := s.signCalls.set call none } :=
        .of_same rfl (.refl _) rfl rfl rfl rfl
      exact .inl (hclosed.trans (recordSignature_spec _ prepared data actionHash))
    | none =>
      have hclosed : Keeps s { s with
          signCalls := s.signCalls.set call none
          preparedOwnershipActions := s.preparedOwnershipActions.set prepared none } :=
        .of_same rfl (.refl _) rfl rfl rfl rfl
      exact hclosed.release id data _
  · exact .inl (.refl s)

theorem step_sign (s : OwnershipLanes Lane) (prepared : ℕ) (opened : Bool) :
    Loses s (s.step (.sign prepared opened)) := by
  simp only [step]
  split
  · split
    · split
      · exact .inl (.of_same rfl (.refl _) rfl rfl rfl rfl)
      · exact s.abandonPrepared_spec prepared
    · exact .inl (.refl s)
  · exact .inl (.refl s)

/-! ## Taking a nonce -/

theorem reconcile_eq_none {chainNonce : ℕ} :
    s.reconcile nonceLane chainNonce = none ↔
      ∃ blockedNonce, s.ownershipBlockedNonces nonceLane = some blockedNonce ∧
        chainNonce ≤ blockedNonce := by
  unfold reconcile
  split
  · next hblocked => simp [hblocked]
  · next blockedNonce hblocked => simp [hblocked]

/-- A lane that is taken up again. Only what the chain has passed is forgotten. -/
structure Reconciled (s : OwnershipLanes Lane) (nonceLane : Lane) (chainNonce : ℕ)
    (s' : OwnershipLanes Lane) : Prop where
  unblocked : ∀ blockedNonce, s.ownershipBlockedNonces nonceLane = some blockedNonce →
    blockedNonce < chainNonce
  next : s'.nextOwnershipNonces = s.nextOwnershipNonces
  blocked : s'.ownershipBlockedNonces = update s.ownershipBlockedNonces nonceLane none
  reserved : ∀ {taken}, s'.Reserved taken → s.Reserved taken
  kept : ∀ {taken}, s.Reserved taken → (taken.1 = nonceLane → chainNonce ≤ taken.2) →
    s'.Reserved taken
  calls : s'.submitCalls = s.submitCalls
  chain : s'.chainNonces = s.chainNonces
  rewound : s'.rewound = s.rewound

theorem reconcile_eq_some {chainNonce : ℕ} (h : s.reconcile nonceLane chainNonce = some s') :
    Reconciled s nonceLane chainNonce s' := by
  unfold reconcile at h
  split at h
  · next hblocked =>
    obtain rfl := Option.some.inj h
    exact ⟨by simp [hblocked], rfl, (update_eq_self_iff.mpr hblocked.symm).symm, id,
      fun hreserved _ => hreserved, rfl, rfl, rfl⟩
  · next blockedNonce hblocked =>
    split at h
    · cases h
    · next hlt =>
      obtain rfl := Option.some.inj h
      have hunblocked : ∀ earlier, s.ownershipBlockedNonces nonceLane = some earlier →
        earlier < chainNonce := by
        intro earlier hearlier
        obtain rfl := Option.some.inj (hblocked.symm.trans hearlier)
        omega
      refine ⟨hunblocked, rfl, rfl, fun {taken} hreserved => ?_, fun {taken} hreserved hkept => ?_,
        rfl, rfl, rfl⟩
      · unfold Reserved ownershipReservation at hreserved ⊢
        by_cases hlane : taken.1 = nonceLane
        · simp only [hlane, update_self, getElem?_filter_keys] at hreserved ⊢
          split at hreserved
          · exact hreserved
          · exact absurd rfl hreserved
        · simpa only [update_of_ne hlane] using hreserved
      · unfold Reserved ownershipReservation at hreserved ⊢
        by_cases hlane : taken.1 = nonceLane
        · have hle := hkept hlane
          simp only [hlane, update_self, getElem?_filter_keys] at hreserved ⊢
          rw [if_pos (by simpa using hle)]
          exact hreserved
        · simpa only [update_of_ne hlane] using hreserved

/-- What `reserve` does to the objects that hold nonces. -/
theorem reserve_spec (s : OwnershipLanes Lane) (nonceLane : Lane) (nonce : ℕ) (built : Bool) :
    ∃ reservations prepared, s.reserve nonceLane nonce built = { s with
        nextOwnershipNonces := update s.nextOwnershipNonces nonceLane (some (nonce + 1))
        ownershipReservations := reservations
        preparedOwnershipActions := prepared } ∧
      (∀ {taken}, (s.reserve nonceLane nonce built).Reserved taken →
        taken = (nonceLane, nonce) ∨ s.Reserved taken) ∧
      (∀ {taken}, s.Reserved taken → (s.reserve nonceLane nonce built).Reserved taken) ∧
      (built = true → (s.reserve nonceLane nonce built).Reserved (nonceLane, nonce)) := by
  cases built with
  | false => exact ⟨_, _, rfl, .inr, id, fun h => nomatch h⟩
  | true =>
    have hset {taken : Lane × ℕ} : (s.reserve nonceLane nonce true).ownershipReservation
      taken.1 taken.2 =
        if taken.1 = nonceLane ∧
        taken.2 = nonce then some (.prepared s.preparedOwnershipActions.length)
        else s.ownershipReservation taken.1 taken.2 := ownershipReservation_set taken.1 taken.2
    refine ⟨_, _, rfl, fun {taken} h => ?_, fun {taken} h => ?_, fun _ => ?_⟩
    · unfold Reserved at h
      rw [hset] at h
      split at h
      · next heq => exact .inl (Prod.ext heq.1 heq.2)
      · exact .inr h
    · unfold Reserved
      rw [hset]
      split
      · simp
      · exact h
    · unfold Reserved
      rw [hset]
      simp

theorem reconcile_isSome_next {chainNonce : ℕ}
    (hunblocked : ∀ blockedNonce, s.ownershipBlockedNonces nonceLane = some blockedNonce →
      blockedNonce < chainNonce) :
    (s.reconcile nonceLane chainNonce).map (·.nextOwnershipNonces) =
      some s.nextOwnershipNonces := by
  cases h : s.reconcile nonceLane chainNonce with
  | none =>
    obtain ⟨blockedNonce, hblocked, hle⟩ := reconcile_eq_none.mp h
    exact absurd hle (Nat.not_le.mpr (hunblocked _ hblocked))
  | some after => rw [Option.map_some, (reconcile_eq_some h).next]

theorem takeNonce_spec (hcall : s.prepareCalls[call]? = some (.reading nonceLane)) (chainNonce : ℕ)
    (built : Bool) :
    s.Effect (.chainNonce call (some (chainNonce, built)))
      (s.takeNonce call nonceLane chainNonce built) := by
  have hreads : s.reads (.chainNonce call (some (chainNonce, built))) =
    some (nonceLane, chainNonce) := by
    simp only [reads, hcall]
  unfold takeNonce
  dsimp only
  split
  · next hreconcile =>
    have hblocked := reconcile_eq_none.mp hreconcile
    refine .waits ?_ hreads (.of_same rfl (.refl _) rfl rfl rfl rfl)
    simp only [reserves, hcall, Option.map_eq_none_iff]
    exact reconcile_eq_none.mpr hblocked
  · next after hreconcile =>
    have hafter := reconcile_eq_some hreconcile
    have hnext : after.nextOwnershipNonces = s.nextOwnershipNonces := hafter.next
    rw [hnext]
    obtain ⟨reservations, prepared, heq, hnew, hkept, htaken⟩ :=
      after.reserve_spec nonceLane (chooseNonce (s.nextOwnershipNonces nonceLane) chainNonce) built
    have hcalls :
      ((after.reserve nonceLane (chooseNonce (s.nextOwnershipNonces nonceLane) chainNonce)
        built).leave call nonceLane).submitCalls = s.submitCalls := by
      rw [heq]
      exact hafter.calls
    refine .takes ?_ hreads ⟨rfl, hafter.unblocked, ?_, ?_, ?_, ?_, ?_, ?_, ?_, ?_⟩
    · have := congrArg (Option.map fun next => (nonceLane, chooseNonce (next nonceLane) chainNonce))
        (reconcile_isSome_next (s := s) hafter.unblocked)
      simpa only [reserves, hcall, Option.map_map, Option.map_some, Function.comp_def] using this
    · rw [heq, ← hnext]
      rfl
    · rw [heq]
      exact hafter.blocked
    · intro taken hout
      rcases hout with hreserved | hsubmitted
      · exact (hnew hreserved).imp_right fun hreserved => .inl (hafter.reserved hreserved)
      · exact .inr (.inr (hcalls ▸ hsubmitted))
    · intro taken hheld hpassed
      refine hheld.imp (fun hreserved => hkept (hafter.kept hreserved hpassed)) fun hsettled => ?_
      exact hcalls.symm ▸ hsettled
    · exact fun hbuilt => .inl (htaken hbuilt)
    · exact hcalls
    · rw [heq]
      exact hafter.chain
    · rw [heq]
      exact hafter.rewound

theorem step_effect (s : OwnershipLanes Lane) (event : OwnershipEvent Lane) : s.Effect event
    (s.step event) := by
  cases event with
  | prepare nonceLane => exact .keeps rfl (.of_same rfl (.refl _) rfl rfl rfl rfl)
  | proceed call =>
    refine .keeps rfl ?_
    simp only [step]
    split
    · split
      · exact .of_same rfl (.refl _) rfl rfl rfl rfl
      · exact .refl s
    · exact .refl s
  | chainNonce call answer =>
    simp only [step]
    split
    · next nonceLane hcall =>
      cases answer with
      | none => exact .keeps rfl (.of_same rfl (.refl _) rfl rfl rfl rfl)
      | some answer => exact takeNonce_spec hcall answer.1 answer.2
    · next hcall =>
      refine .keeps ?_ (.refl s)
      cases answer with
      | none => rfl
      | some answer => simp only [reserves]
  | sign prepared opened => exact (s.step_sign prepared opened).effect rfl
  | signature call answer => exact (s.step_signature call answer).effect rfl
  | abandonPrepared prepared => exact (s.abandonPrepared_spec prepared).effect rfl
  | submit signed => exact (s.submit_spec signed).effect rfl
  | reported call returned => exact (s.step_reported call returned).effect rfl
  | submitted call answer => exact (s.step_submitted call answer).effect rfl
  | abandonSigned signed => exact ((Keeps.refl s).abandonSigned id signed).effect rfl

theorem transactionStatus_spec (s : OwnershipLanes Lane) (actionHash : Option Bytes)
    (transactionId : Bytes) (status : TransactionStatusResult) :
    Keeps s (s.transactionStatus actionHash transactionId status) := by
  unfold transactionStatus
  split
  · exact .refl s
  · split
    · exact .of_same rfl (lowers_lowerBlock _ _ _) rfl rfl rfl rfl
    · split
      · exact .of_same rfl (.refl _) rfl rfl rfl rfl
      · exact .refl s

theorem submitCalls_transactionStatus (s : OwnershipLanes Lane) (actionHash : Option Bytes)
    (transactionId : Bytes) (status : TransactionStatusResult) :
    (s.transactionStatus actionHash transactionId status).submitCalls = s.submitCalls := by
  unfold transactionStatus
  split
  · rfl
  · split
    · rfl
    · split <;> rfl

/-- A failure that is reported of a transaction that the client keeps blocks the lane. -/
theorem blocked_transactionStatus {actionHash : Option Bytes} {transactionId : Bytes}
    {status : TransactionStatusResult}
    (hfailed : status.reportsFailure (status.receipt actionHash) = true)
    (hkept : s.ownershipTransactionNonces transactionId = some taken) :
    ∃ blockedNonce ≤ taken.2,
      (s.transactionStatus actionHash transactionId status).ownershipBlockedNonces
      taken.1 = some blockedNonce := by
  have hblocks := status.blocks_of_reportsFailure hfailed
  simp only [transactionStatus, hkept, hblocks, if_true]
  obtain ⟨least, hleast, hle, -⟩ := lowerBlock_self s.ownershipBlockedNonces taken.1 taken.2
  exact ⟨least, hle, hleast⟩

omit [DecidableEq Lane] in
/-- A report changes nothing but what is held. -/
theorem report_spec (s : OwnershipLanes Lane) (transactionId : Bytes) (failed : Bool) :
    (s.report transactionId failed).nextOwnershipNonces = s.nextOwnershipNonces ∧
      (s.report transactionId failed).ownershipBlockedNonces = s.ownershipBlockedNonces ∧
      (∀ {taken}, (s.report transactionId failed).Outstanding taken ↔ s.Outstanding taken) ∧
      ∀ {taken}, (s.report transactionId failed).Checked taken ↔ s.Checked taken := by
  unfold report
  split
  · refine ⟨rfl, rfl, ?_, ?_⟩
    · simp [Outstanding, Reserved, ownershipReservation, SubmitCall.outstanding_report]
    · simp [Checked, SubmitCall.checked_report]
  · exact ⟨rfl, rfl, Iff.rfl, Iff.rfl⟩

/-! ## No nonce twice -/

variable {event : OwnershipEvent Lane}

/-- The next nonces are above all outstanding ones. -/
def Ahead (s : OwnershipLanes Lane) : Prop :=
  (s.ledger s.Outstanding).Ahead

/-- A lane without a next nonce finds that the chain has passed all that is outstanding on it. -/
def RestartsClear (s : OwnershipLanes Lane) (event : OwnershipEvent Lane) : Prop :=
  ∀ read ∈ s.reads event, s.reserves event ≠ none → s.nextOwnershipNonces read.1 = none →
    ∀ nonce, s.Outstanding (read.1, nonce) → nonce < read.2

instance (s : OwnershipLanes Lane) (taken : Lane × ℕ) : Decidable (s.Reserved taken) :=
  inferInstanceAs (Decidable (s.ownershipReservation taken.1 taken.2 ≠ none))

instance (s : OwnershipLanes Lane) (taken : Lane × ℕ) : Decidable (s.Sent taken) :=
  inferInstanceAs (Decidable (∃ call ∈ s.submitCalls, call.sent = some taken))

instance (s : OwnershipLanes Lane) (taken : Lane × ℕ) : Decidable (s.Unresolved taken) :=
  inferInstanceAs (Decidable (∃ call ∈ s.submitCalls, call.unresolved = some taken))

omit [DecidableEq Lane] in
theorem mem_keys_iff_reserved : nonce ∈ (s.ownershipReservations nonceLane).keys ↔
    s.Reserved (nonceLane, nonce) := by
  unfold Reserved ownershipReservation
  rw [Std.ExtTreeMap.mem_keys, Option.ne_none_iff_isSome, Std.ExtTreeMap.mem_iff_isSome_getElem?]

instance (s : OwnershipLanes Lane) (event : OwnershipEvent Lane) :
    Decidable (s.RestartsClear event) :=
  decidable_of_iff (∀ read ∈ s.reads event, s.reserves event ≠ none →
    s.nextOwnershipNonces read.1 = none →
      (∀ nonce ∈ (s.ownershipReservations read.1).keys, nonce < read.2) ∧
      ∀ call ∈ s.submitCalls, ∀ taken ∈ call.outstanding, taken.1 = read.1 → taken.2 < read.2)
    ⟨fun h read hread hreserves hnone nonce hout =>
        have hall := h read hread hreserves hnone
        hout.elim (fun hreserved => hall.1 nonce (mem_keys_iff_reserved.mpr hreserved))
          fun ⟨call, hcall, htaken⟩ => hall.2 call hcall (read.1, nonce) htaken rfl,
      fun h read hread hreserves hnone =>
        ⟨fun nonce hnonce => h read hread hreserves hnone nonce
          (.inl (mem_keys_iff_reserved.mp hnonce)), fun call hcall taken htaken hlane =>
            h read hread hreserves hnone taken.2 (.inr ⟨call, hcall, hlane ▸ htaken⟩)⟩⟩

omit [DecidableEq Lane] in
theorem Ahead.keeps (h : s.Ahead) (hkeeps : Keeps s s') : s'.Ahead :=
  h.shrink (fun hsome => (congrFun hkeeps.next _).symm.trans hsome) hkeeps.outstanding

omit [DecidableEq Lane] in
theorem Ahead.report (h : s.Ahead) (transactionId : Bytes) (failed : Bool) :
    (s.report transactionId failed).Ahead := by
  obtain ⟨hnext, -, hout, -⟩ := s.report_spec transactionId failed
  exact h.shrink (fun hsome => (congrFun hnext _).symm.trans hsome) hout.mp

/-- The nonce that is taken is above the outstanding ones. -/
theorem Ahead.takes {chainNonce : ℕ} {built : Bool} (h : s.Ahead)
    (htakes : Takes s nonceLane chainNonce nonce built s')
    (hclear : s.nextOwnershipNonces nonceLane = none →
      ∀ nonce, s.Outstanding (nonceLane, nonce) → nonce < chainNonce)
    {other : ℕ} (hout : s.Outstanding (nonceLane, other)) : other < nonce := by
  rw [htakes.choice]
  unfold chooseNonce
  split
  · next hnone => exact hclear hnone other hout
  · next next hsome =>
    have := h hsome hout
    split
    · omega
    · exact this

theorem Ahead.step (h : s.Ahead) (hclear : s.RestartsClear event) : (s.step event).Ahead := by
  cases s.step_effect event with
  | keeps hreserves hkeeps => exact h.keeps hkeeps
  | releases released hreserves hreleases => exact h.shrink hreleases.next hreleases.outstanding
  | waits hreserves hreads hkeeps => exact Ahead.keeps (by exact h) hkeeps
  | @takes nonceLane chainNonce taken _ hreserves hreads htakes =>
    exact Ledger.Ahead.take h htakes.next htakes.outstanding
      (h.takes htakes (hclear _ hreads (by simp [hreserves])))

theorem Ahead.reserves_fresh (h : s.Ahead) (hclear : s.RestartsClear event) {taken : Lane × ℕ}
    (hreserves : s.reserves event = some taken) : ¬ s.Outstanding taken := by
  intro hout
  cases s.step_effect event with
  | keeps hnone | releases _ hnone | waits hnone =>
    rw [hreserves] at hnone
    cases hnone
  | takes htaken hreads htakes =>
    obtain rfl := Option.some.inj (hreserves.symm.trans htaken)
    exact Nat.lt_irrefl _ (h.takes htakes (hclear _ hreads (by simp [hreserves])) hout)

/-! ## No gap -/

/-- From the last reading up to the next nonce of a lane, a nonce is held, or it was lost and the
lane is blocked there or below. -/
def Gapless (s : OwnershipLanes Lane) : Prop :=
  (s.ledger s.Held).Gapless

/-- Readings of a lane do not go back, an action whose nonce was taken can be built, and when a
blocked lane is taken up again, the nonces that were given back or reported as failed and that the
chain has not passed are held by other actions. -/
def LosesNothing (s : OwnershipLanes Lane) (event : OwnershipEvent Lane) : Prop :=
  (∀ read ∈ s.reads event, ∀ earlier ∈ s.chainNonces read.1, earlier ≤ read.2) ∧
  (s.reserves event ≠ none → event.builds = true) ∧
  ∀ read ∈ s.reads event, ∀ blockedNonce ∈ s.ownershipBlockedNonces read.1, blockedNonce < read.2 →
    ∀ taken ∈ s.rewound, taken.1 = read.1 → read.2 ≤ taken.2 → s.Held taken

instance (s : OwnershipLanes Lane) (taken : Lane × ℕ) : Decidable (s.Held taken) :=
  inferInstanceAs (Decidable (s.Reserved taken ∨ ∃ call ∈ s.submitCalls, call.settled = some taken))

instance (s : OwnershipLanes Lane) (event : OwnershipEvent Lane) :
    Decidable (s.LosesNothing event) :=
  inferInstanceAs (Decidable (
    (∀ read ∈ s.reads event, ∀ earlier ∈ s.chainNonces read.1, earlier ≤ read.2) ∧
    (s.reserves event ≠ none → event.builds = true) ∧
    ∀ read ∈ s.reads event, ∀ blockedNonce ∈ s.ownershipBlockedNonces read.1,
    blockedNonce < read.2 →
      ∀ taken ∈ s.rewound, taken.1 = read.1 → read.2 ≤ taken.2 → s.Held taken))

/-- The chain had not passed the nonce at the last reading, the next nonce of the lane is a later
one, and the lane is not blocked there or below. -/
def Passed (s : OwnershipLanes Lane) (taken : Lane × ℕ) : Prop :=
  (s.ledger s.Held).Passed taken

instance (s : OwnershipLanes Lane) (taken : Lane × ℕ) : Decidable (s.Passed taken) :=
  inferInstanceAs (Decidable (Ledger.Passed _ _))

/-- A transaction that is reported as failed is one that the client keeps, or its nonce was not
passed. -/
def ReportsKept (s : OwnershipLanes Lane) (transactionId : Bytes) : Prop :=
  ∀ call ∈ s.submitCalls, ∀ taken ∈ call.acceptedAs transactionId, s.Passed taken →
    s.ownershipTransactionNonces transactionId = some taken

instance (s : OwnershipLanes Lane) (transactionId : Bytes) :
    Decidable (s.ReportsKept transactionId) :=
  inferInstanceAs (Decidable (∀ call ∈ s.submitCalls, ∀ taken ∈ call.acceptedAs transactionId,
    s.Passed taken → s.ownershipTransactionNonces transactionId = some taken))

omit [DecidableEq Lane] in
theorem Gapless.keeps (h : s.Gapless) (hkeeps : Keeps s s') : s'.Gapless :=
  h.keep hkeeps.next hkeeps.blocked hkeeps.chain
    (fun {taken} => (congrArg (taken ∈ ·) hkeeps.rewound).mpr) hkeeps.held

omit [DecidableEq Lane] in
theorem Gapless.releases {released : Lane × ℕ} (h : s.Gapless)
    (hreleases : Releases s released s') :
    s'.Gapless := by
  have hlost : ∀ {taken}, taken = released ∨ taken ∈ s.rewound → taken ∈ s'.rewound := by
    intro taken htaken
    rw [hreleases.rewound]
    exact List.mem_cons.mpr htaken
  refine h.lose hreleases.next hreleases.blocked hreleases.chain
    (fun hbefore => hlost (.inr hbefore)) ?_
  intro lane next start nonce hsome _ _ hlt hheld
  rcases hreleases.held hheld with rfl | hafter
  · exact .inr ⟨hlost (.inl rfl), hreleases.passed hsome hlt⟩
  · exact .inl hafter

/-- A report of failure is recorded, and the lane is blocked or had not gone on. -/
theorem Gapless.status (h : s.Gapless) {actionHash : Option Bytes} {transactionId : Bytes}
    {status : TransactionStatusResult} {failed : Bool}
    (hreports : failed = true → status.reportsFailure (status.receipt actionHash) = true)
    (hkept : failed = true → s.ReportsKept transactionId) :
    ((s.transactionStatus actionHash transactionId status).report
      transactionId failed).Gapless := by
  have hkeeps := s.transactionStatus_spec actionHash transactionId status
  cases failed with
  | false => exact h.keeps hkeeps
  | true =>
    refine h.lose (fun hsome => (congrFun hkeeps.next _).symm.trans hsome)
      hkeeps.blocked hkeeps.chain
      (fun hbefore => List.mem_append_right _ (hkeeps.rewound.symm ▸ hbefore)) ?_
    rintro lane next start nonce hsome hstart hle hlt hbefore
    rcases hkeeps.held hbefore with hreserved | ⟨call, hcall, hsettled⟩
    · exact .inl (.inl hreserved)
    · rcases SubmitCall.settled_report hsettled with hafter | haccepted
      · exact .inl (.inr ⟨_, List.mem_map_of_mem hcall, hafter⟩)
      · refine .inr ⟨List.mem_append_left _ (List.mem_filterMap.mpr ⟨call, hcall, haccepted⟩), ?_⟩
        rw [submitCalls_transactionStatus] at hcall
        by_cases hpassed : s.Passed (lane, nonce)
        · exact blocked_transactionStatus (hreports rfl) (hkept rfl call hcall _ haccepted hpassed)
        · exact hkeeps.blocked.exists_le (Ledger.exists_block_of_not_passed hpassed hstart hle
            ((congrFun hkeeps.next _).symm.trans hsome) hlt)

/-- Below the nonce that is taken everything is held that the chain has not passed. -/
theorem Gapless.takes {chainNonce other : ℕ} {built : Bool} (h : s.Gapless)
    (htakes : Takes s nonceLane chainNonce nonce built s')
    (hforward : ∀ earlier, s.chainNonces nonceLane = some earlier → earlier ≤ chainNonce)
    (hreturned : ∀ blockedNonce ∈ s.ownershipBlockedNonces nonceLane, blockedNonce < chainNonce →
      ∀ taken ∈ s.rewound, taken.1 = nonceLane → chainNonce ≤ taken.2 → s.Held taken)
    (hle : chainNonce ≤ other) (hlt : other < nonce) : s.Held (nonceLane, other) := by
  rw [htakes.choice] at hlt
  unfold chooseNonce at hlt
  split at hlt
  · omega
  · next next hnext =>
    obtain ⟨earlier, hearlier⟩ := h.started hnext
    have hafter : other < next := by
      split at hlt <;> omega
    rcases h.accounts hnext hearlier ((hforward earlier hearlier).trans hle) hafter with
      hheld | ⟨hrewound, blockedNonce, -, hblocked⟩
    · exact hheld
    · exact hreturned blockedNonce hblocked (htakes.unblocked _ hblocked) _ hrewound rfl hle

theorem Gapless.step (h : s.Gapless) (hloses : s.LosesNothing event) : (s.step event).Gapless := by
  obtain ⟨hforward, hbuilds, hreturned⟩ := hloses
  cases s.step_effect event with
  | keeps hreserves hkeeps => exact h.keeps hkeeps
  | releases released hreserves hreleases => exact h.releases hreleases
  | @waits nonceLane chainNonce _ hreserves hreads hkeeps =>
    have hlooked : Gapless
      { s with chainNonces := update s.chainNonces nonceLane (some chainNonce) } :=
      h.look (hforward _ hreads)
    exact hlooked.keeps hkeeps
  | @takes nonceLane chainNonce taken _ hreserves hreads htakes =>
    refine Ledger.Gapless.take h htakes.next
      (fun other hother => (congrFun htakes.blocked other).trans (update_of_ne hother _ _))
      ((congrFun htakes.chain _).trans (update_self ..))
      (fun other hother => (congrFun htakes.chain other).trans (update_of_ne hother _ _))
      (fun {taken} => (congrArg (taken ∈ ·) htakes.rewound).mpr)
      (fun hother hheld => htakes.held hheld fun hsame => absurd hsame hother)
      fun {other} hle hlt => ?_
    rcases Nat.lt_or_eq_of_le hlt with hlt | rfl
    · exact htakes.held (h.takes htakes (hforward _ hreads) (hreturned _ hreads) hle hlt) fun _ =>
        hle
    · exact htakes.taken (hbuilds (by simp [hreserves]))

/-- What lies between the reading and the nonce that is taken is held. -/
theorem Gapless.reserves (h : s.Gapless) (hloses : s.LosesNothing event) {chainNonce other : ℕ}
    (hreserves : s.reserves event = some (nonceLane, nonce))
    (hread : (s.step event).chainNonces nonceLane = some chainNonce) (hle : chainNonce ≤ other)
    (hlt : other < nonce) : s.Held (nonceLane, other) := by
  cases s.step_effect event with
  | keeps hnone | releases _ hnone | waits hnone =>
    rw [hreserves] at hnone
    cases hnone
  | takes htaken hreads htakes =>
    cases hreserves.symm.trans htaken
    rw [htakes.chain, update_self] at hread
    cases hread
    exact h.takes htakes (hloses.1 _ hreads) (hloses.2.2 _ hreads) hle hlt

/-! ## A blocked lane -/

/-- The lane is blocked at the nonce or below it, and no submission at or above it has been let
through. -/
def Stopped (s : OwnershipLanes Lane) (nonceLane : Lane) (nonce : ℕ) : Prop :=
  (∃ blockedNonce ≤ nonce, s.ownershipBlockedNonces nonceLane = some blockedNonce) ∧
    ∀ other, s.Checked (nonceLane, other) → other < nonce

omit [DecidableEq Lane] in
theorem Stopped.keeps (h : s.Stopped nonceLane nonce) (hkeeps : Keeps s s') :
    s'.Stopped nonceLane nonce := by
  obtain ⟨⟨blockedNonce, hle, hblocked⟩, hchecked⟩ := h
  constructor
  · obtain ⟨lower, hlower, hafter⟩ := hkeeps.blocked _ _ hblocked
    exact ⟨lower, hlower.trans hle, hafter⟩
  · intro other hother
    rcases hkeeps.checked hother with hbefore | hbelow
    · exact hchecked other hbefore
    · exact (hbelow blockedNonce hblocked).trans_le hle

omit [DecidableEq Lane] in
theorem Stopped.report (h : s.Stopped nonceLane nonce) (transactionId : Bytes) (failed : Bool) :
    (s.report transactionId failed).Stopped nonceLane nonce := by
  obtain ⟨-, hblocked, -, hchecked⟩ := s.report_spec transactionId failed
  exact ⟨hblocked.symm ▸ h.1, fun other hother => h.2 other (hchecked.mp hother)⟩

/-- A submission that fails without an answer stops its lane, unless a later one was already let
through. -/
theorem stopped_of_unanswered {signed : ℕ} {data : SignedOwnershipActionData Lane}
    (hcall : s.submitCalls[call]? = some (.submitting signed data))
    (hchecked : ∀ nonce, s.Checked (data.nonceLane, nonce) → nonce < data.nonce) :
    (s.step (.submitted call (.error .other))).Stopped data.nonceLane data.nonce := by
  obtain ⟨-, hkept⟩ := Keeps.setCall (.ended data.nonceLane data.nonce .ambiguous) hcall
    (.inr rfl) rfl rfl
  simp only [step, hcall, endSubmission, outcomeOf, Outcome.ofError, isDefiniteSubmissionRejection,
    Bool.false_eq_true, false_and, if_false, if_true]
  refine ⟨?_, fun nonce hnonce => hchecked nonce (hkept hnonce)⟩
  obtain ⟨least, hleast, hle, -⟩ := lowerBlock_self s.ownershipBlockedNonces
    data.nonceLane data.nonce
  exact ⟨least, hle, hleast⟩

/-- It stays so until the chain has passed a nonce at which the lane is blocked. -/
theorem Stopped.step (h : s.Stopped nonceLane nonce)
    (hblocks : ∀ blockedNonce, s.ownershipBlockedNonces nonceLane = some blockedNonce →
      nonce ≤ blockedNonce)
    (hreads : ∀ chainNonce, s.reads event = some (nonceLane, chainNonce) → chainNonce ≤ nonce) :
    (s.step event).Stopped nonceLane nonce ∧
    (∀ taken, s.reserves event = some taken → taken.1 ≠ nonceLane) := by
  cases s.step_effect event with
  | keeps hnone hkeeps => exact ⟨h.keeps hkeeps, fun taken htaken =>
    nomatch hnone.symm.trans htaken⟩
  | releases released hnone hreleases =>
    refine ⟨⟨?_, fun other hother => h.2 other (hreleases.checked hother)⟩,
      fun taken htaken => nomatch hnone.symm.trans htaken⟩
    obtain ⟨blockedNonce, hle, hblocked⟩ := h.1
    obtain ⟨lower, hlower, hafter⟩ := hreleases.blocked _ _ hblocked
    exact ⟨lower, hlower.trans hle, hafter⟩
  | waits hnone hreads hkeeps =>
    exact ⟨Stopped.keeps (by exact h) hkeeps, fun taken htaken => nomatch hnone.symm.trans htaken⟩
  | @takes lane chainNonce _ _ htaken hread htakes =>
    obtain ⟨⟨blockedNonce, hle, hblocked⟩, hchecked⟩ := h
    have hlane : nonceLane ≠ lane := by
      rintro rfl
      have hpassed := htakes.unblocked _ hblocked
      have hbelow := hblocks _ hblocked
      have hstill := hreads _ hread
      omega
    refine ⟨⟨⟨blockedNonce, hle, ?_⟩, fun other hother => hchecked other ?_⟩, fun taken hsome => ?_⟩
    · rw [htakes.blocked, update_of_ne hlane, hblocked]
    · unfold Checked at hother ⊢
      rwa [htakes.calls] at hother
    · cases hsome.symm.trans htaken
      exact hlane.symm

omit [DecidableEq Lane] in
theorem checked_of_sends (hsends : s.sends event = some taken) : s.Checked taken := by
  unfold sends at hsends
  split at hsends
  · split at hsends
    · next hcall =>
      cases hsends
      exact ⟨_, List.mem_of_getElem? hcall, rfl⟩
    · cases hsends
  · cases hsends

end OwnershipLanes

end JamScript.Client
