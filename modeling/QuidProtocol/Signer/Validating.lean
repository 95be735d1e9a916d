import Mathlib.Logic.Function.Basic
import Mathlib.Order.MinMax
import QuidProtocol.Lib.Machine
import QuidProtocol.Spv.Header
import Mathlib.Data.Finset.Card
import Mathlib.Order.Interval.Finset.Nat

/-!
`validating_signer.rs`: the policy in front of a channel's signer.
The nonces of the partial signatures, in one lifetime and over restarts.
-/

namespace QuidProtocol.Signer

open Lib Lib.Machine Function
open Spv (Bytes32)

inductive Domain
  | holder
  | counterparty
  | deadMan
  deriving DecidableEq

structure NonceInput (A N : Type) where
  keyAgg : A
  domain : Domain
  height : ℕ
  message : Option Bytes32
  peer : Option N
  deriving DecidableEq

def nonceInput {A N : Type} (keyAgg : A) (height : ℕ) (peer : N) (message : Bytes32) : Domain → NonceInput A N
  | .holder => ⟨keyAgg, .holder, height, none, none⟩
  | .counterparty => ⟨keyAgg, .counterparty, height, some message, some peer⟩
  | .deadMan => ⟨keyAgg, .deadMan, height, some message, none⟩

structure Round (A N : Type) where
  keyAgg : Option A
  peer : Option N
  message : Option Bytes32
  signs : Bool
  deriving DecidableEq

structure PartialSignature (P N : Type) where
  nonce : P
  peer : N
  message : Bytes32
  deriving DecidableEq

inductive Call (A N : Type)
  | validateHolderCommitment (idx : ℕ) (inner : Bool)
  | signHolderCommitment (idx : ℕ) (inner : Bool)
  | finalizeHolderCommitment (idx : ℕ) (r : Round A N)
  | signCounterpartyCommitment (idx : ℕ) (inner : Bool)
  | partiallySignCounterpartyCommitment (idx : ℕ) (r : Round A N) (htlcSigs : Bool)
  | releaseCommitmentSecret (idx : ℕ) (inner : Bool)
  | partiallySignClosingTransaction (paysHolder : Bool) (closingRound : ℕ) (r : Round A N)
  | partiallySignSpliceSharedInput (continues : Bool) (prevFundingTxid : Bytes32) (candidateIndex : UInt64)
    (r : Round A N)
  | deadmanExit (height : ℕ) (r : Round A N)
  | restart
  deriving DecidableEq

inductive Answer (P N : Type)
  | refused
  | done
  | signed (q : PartialSignature P N)
  deriving DecidableEq

inductive Track
  | holder
  | counterparty
  | secret
  deriving DecidableEq

structure MonotonicState (P D : Type) where
  reached : Track → Option ℕ
  nonceBindings : P → Option D

def MonotonicState.new {P D : Type} : MonotonicState P D := ⟨fun _ => none, fun _ => none⟩

def checkNoRegression (reached : Option ℕ) (idx : ℕ) : Bool := reached.all fun r => idx ≤ r

def checkNotRevoked (released : Option ℕ) (idx : ℕ) : Bool := released.all fun r => idx < r

def advance (reached : Option ℕ) (idx : ℕ) : ℕ :=
  match reached with
  | some r => min r idx
  | none => idx

section Policy

variable {P D : Type}

variable (s : MonotonicState P D)

def record (t : Track) (idx : ℕ) : Option (MonotonicState P D) :=
  if checkNoRegression (s.reached t) idx then
    some { s with reached := update s.reached t (some (advance (s.reached t) idx)) }
  else none

def recordHolderCommitment (idx : ℕ) : Option (MonotonicState P D) :=
  if checkNotRevoked (s.reached .secret) idx then record s .holder idx else none

def recordCounterpartyCommitment (idx : ℕ) : Option (MonotonicState P D) :=
  record s .counterparty idx

def recordSecretRelease (idx : ℕ) : Option (MonotonicState P D) := record s .secret idx

end Policy

def spliceNonceTag : Bytes :=
  [0x71, 0x75, 0x69, 0x64, 0x2d, 0x74, 0x61, 0x70, 0x72, 0x6f, 0x6f, 0x74, 0x2d, 0x73, 0x70, 0x6c, 0x69, 0x63, 0x65,
    0x2d, 0x6e, 0x6f, 0x6e, 0x63, 0x65]

def spliceNonceHeight (sha256 : Bytes → Bytes32) (prevFundingTxid : Bytes32) (candidateIndex : UInt64) : ℕ :=
  let h := sha256 (spliceNonceTag ++ (toBytesBE 32 prevFundingTxid.toNat ++ toBytesBE 8 candidateIndex.toNat))
  let raw := h.toNat / 2 ^ 192
  (2 ^ 48 + raw % 2 ^ 56) % 2 ^ 64

def closingNonceHeight (round : ℕ) : ℕ := 2 ^ 64 - 1 - round

variable {A N P D : Type} [DecidableEq P] [DecidableEq D]
variable (sha256 : Bytes → Bytes32) (pub : NonceInput A N → P) (agg : N → Bytes32 → D)

variable (s : MonotonicState P D)

def bindNonce (nonce : P) (peer : N) (message : Bytes32) : Option (MonotonicState P D) :=
  if (s.nonceBindings nonce).all fun prev => prev = agg peer message then
    some { s with nonceBindings := update s.nonceBindings nonce (some (agg peer message)) }
  else none

def keyPath (domain : Domain) (height : ℕ) (r : Round A N) : MonotonicState P D × Answer P N :=
  match r.keyAgg, r.peer, r.message with
  | some keyAgg, some peer, some message =>
    if ¬ r.signs then (s, .refused)
    else
      let nonce := pub (nonceInput keyAgg height peer message domain)
      match bindNonce agg s nonce peer message with
      | some s => (s, .signed ⟨nonce, peer, message⟩)
      | none => (s, .refused)
  | _, _, _ => (s, .refused)

def gated (recorded : Option (MonotonicState P D))
    (next : MonotonicState P D → MonotonicState P D × Answer P N) : MonotonicState P D × Answer P N :=
  match recorded with
  | some s => next s
  | none => (s, .refused)

def innerAnswer (inner : Bool) (s : MonotonicState P D) : MonotonicState P D × Answer P N :=
  (s, if inner then .done else .refused)

def step : Call A N → MonotonicState P D × Answer P N
  | .validateHolderCommitment idx inner => gated s (recordHolderCommitment s idx) (innerAnswer inner)
  | .signHolderCommitment idx inner => gated s (recordHolderCommitment s idx) (innerAnswer inner)
  | .finalizeHolderCommitment idx r =>
    gated s (recordHolderCommitment s idx) fun s => keyPath pub agg s .holder idx r
  | .signCounterpartyCommitment idx inner => gated s (recordCounterpartyCommitment s idx) (innerAnswer inner)
  | .partiallySignCounterpartyCommitment idx r htlcSigs =>
    gated s (recordCounterpartyCommitment s idx) fun s =>
      let signed := keyPath pub agg s .counterparty idx r
      (signed.1, if htlcSigs then signed.2 else .refused)
  | .releaseCommitmentSecret idx inner => gated s (recordSecretRelease s idx) (innerAnswer inner)
  | .partiallySignClosingTransaction paysHolder closingRound r =>
    if paysHolder then keyPath pub agg s .holder (closingNonceHeight closingRound) r else (s, .refused)
  | .partiallySignSpliceSharedInput continues prevFundingTxid candidateIndex r =>
    if continues then keyPath pub agg s .holder (spliceNonceHeight sha256 prevFundingTxid candidateIndex) r
    else (s, .refused)
  | .deadmanExit height r => keyPath pub agg s .deadMan height r
  | .restart => (.new, .done)

def Call.track : Call A N → Option (Track × ℕ)
  | .validateHolderCommitment idx _ => some (.holder, idx)
  | .signHolderCommitment idx _ => some (.holder, idx)
  | .finalizeHolderCommitment idx _ => some (.holder, idx)
  | .signCounterpartyCommitment idx _ => some (.counterparty, idx)
  | .partiallySignCounterpartyCommitment idx _ _ => some (.counterparty, idx)
  | .releaseCommitmentSecret idx _ => some (.secret, idx)
  | _ => none

def Accepted (e : Call A N × Answer P N) (t : Track) (idx : ℕ) : Prop := e.1.track = some (t, idx) ∧ e.2 ≠ .refused

structure Recorded (s : MonotonicState P D) (t : Track) (idx : ℕ) (s' : MonotonicState P D) : Prop where
  forward : checkNoRegression (s.reached t) idx
  live : t = .holder → checkNotRevoked (s.reached .secret) idx
  reached : s'.reached = update s.reached t (some (advance (s.reached t) idx))

inductive Moves (s : MonotonicState P D) (c : Call A N) (r : MonotonicState P D × Answer P N) : Prop
  | kept (h : r.1.reached = s.reached) (ha : c.track = none ∨ r.2 = .refused)
  | recorded (t : Track) (idx : ℕ) (hc : c.track = some (t, idx)) (h : Recorded s t idx r.1)

section Counters

variable {sha256 pub agg} {s : MonotonicState P D} {c : Call A N}

omit [DecidableEq P] [DecidableEq D] in
theorem record_recorded {t : Track} {idx : ℕ} {s' : MonotonicState P D} (h : record s t idx = some s')
    (hlive : t = .holder → checkNotRevoked (s.reached .secret) idx) : Recorded s t idx s' := by
  rw [record] at h
  split at h
  · rename_i hforward
    cases h
    exact ⟨hforward, hlive, rfl⟩
  · cases h

omit [DecidableEq P] [DecidableEq D] in
theorem recordHolderCommitment_recorded {idx : ℕ} {s' : MonotonicState P D}
    (h : recordHolderCommitment s idx = some s') : Recorded s .holder idx s' := by
  rw [recordHolderCommitment] at h
  split at h
  · rename_i hlive
    exact record_recorded h fun _ => hlive
  · cases h

theorem keyPath_reached (domain : Domain) (height : ℕ) (r : Round A N) :
    (keyPath pub agg s domain height r).1.reached = s.reached := by
  rw [keyPath]
  split
  · split
    · rfl
    · dsimp only
      split
      · rename_i h
        rw [bindNonce] at h
        split at h
        · cases h
          rfl
        · cases h
      · rfl
  · rfl

omit [DecidableEq P] [DecidableEq D] in
theorem gated_moves {t : Track} {idx : ℕ} {recorded : Option (MonotonicState P D)}
    {next : MonotonicState P D → MonotonicState P D × Answer P N} (hc : c.track = some (t, idx))
    (hrec : ∀ s', recorded = some s' → Recorded s t idx s') (hnext : ∀ s', (next s').1.reached = s'.reached) :
    Moves s c (gated s recorded next) := by
  cases recorded with
  | none => exact .kept rfl (.inr rfl)
  | some s' =>
    obtain ⟨hforward, hlive, hreached⟩ := hrec s' rfl
    exact .recorded t idx hc ⟨hforward, hlive, (hnext s').trans hreached⟩

theorem step_moves (hc : c ≠ .restart) : Moves s c (step sha256 pub agg s c) := by
  cases c with
  | validateHolderCommitment idx inner | signHolderCommitment idx inner =>
    exact gated_moves rfl (fun _ => recordHolderCommitment_recorded) fun _ => rfl
  | finalizeHolderCommitment =>
    exact gated_moves rfl (fun _ => recordHolderCommitment_recorded) fun _ => keyPath_reached _ _ _
  | signCounterpartyCommitment idx inner | releaseCommitmentSecret idx inner =>
    exact gated_moves rfl (fun _ h => record_recorded h fun ht => absurd ht (by decide)) fun _ => rfl
  | partiallySignCounterpartyCommitment =>
    exact gated_moves rfl (fun _ h => record_recorded h fun ht => absurd ht (by decide)) fun _ => keyPath_reached _ _ _
  | partiallySignClosingTransaction paysHolder closingRound r
  | partiallySignSpliceSharedInput =>
    refine .kept ?_ (.inl rfl)
    rw [step]
    split
    · exact keyPath_reached _ _ _
    · rfl
  | deadmanExit => exact .kept (keyPath_reached _ _ _) (.inl rfl)
  | restart => exact absurd rfl hc

def Within (reached : Option ℕ) (idx : ℕ) : Prop := ∃ r ∈ reached, r ≤ idx

theorem advance_le (reached : Option ℕ) (idx : ℕ) : advance reached idx ≤ idx := by
  cases reached with
  | none => exact le_rfl
  | some r => exact min_le_right r idx

theorem within_advance {reached idx n} (h : Within reached n) : advance reached idx ≤ n := by
  obtain ⟨r, hr, hn⟩ := h
  rw [Option.mem_def.mp hr]
  exact (min_le_left r idx).trans hn

theorem le_of_forward {reached i j} (h : Within reached i) (hj : checkNoRegression reached j) : j ≤ i := by
  obtain ⟨r, rfl, hr⟩ := h
  exact (of_decide_eq_true hj).trans hr

theorem lt_of_live {released i j} (h : Within released i) (hj : checkNotRevoked released j) : j < i := by
  obtain ⟨r, rfl, hr⟩ := h
  exact (of_decide_eq_true hj).trans_le hr

theorem within_step (hc : c ≠ .restart) {t n} (h : Within (s.reached t) n) :
    Within ((step sha256 pub agg s c).1.reached t) n := by
  have hmoves : Moves s c (step sha256 pub agg s c) := step_moves hc
  cases hmoves with
  | kept hs => rwa [hs]
  | recorded t' idx _ hs =>
    rw [hs.reached]
    by_cases ht : t = t'
    · subst ht
      rw [update_self]
      exact ⟨_, rfl, within_advance h⟩
    · rwa [update_of_ne ht]

theorem Accepted.recorded (hc : c ≠ .restart) {t idx}
    (h : Accepted (c, (step sha256 pub agg s c).2) t idx) : Recorded s t idx (step sha256 pub agg s c).1 := by
  have hmoves : Moves s c (step sha256 pub agg s c) := step_moves hc
  cases hmoves with
  | kept _ ha =>
    cases ha with
    | inl hnone => cases hnone.symm.trans h.1
    | inr href => exact absurd href h.2
  | recorded t' idx' hc' hs =>
    cases hc'.symm.trans h.1
    exact hs

end Counters

/-- In one lifetime secrets are released forward only, each closing its commitment and the older ones. -/
theorem secrets_forward {calls : List (Call A N)} (hlife : ∀ c ∈ calls, c ≠ .restart) :
    (trace (step sha256 pub agg) .new calls).Pairwise fun e e' => ∀ i j,
      (Accepted e .secret i → Accepted e' .secret j → j ≤ i) ∧ (Accepted e .secret i → Accepted e' .holder j → j < i) ∧
      (Accepted e .counterparty i → Accepted e' .counterparty j → j ≤ i) := by
  apply trace_pairwise (I := fun _ => True) (P := fun _ c => c ≠ .restart)
    (H := fun e s => ∀ t i, Accepted e t i → Within (s.reached t) i)
  case hleft =>
    intro s c _ hc t i h
    rw [(h.recorded hc).reached, update_self]
    exact ⟨_, rfl, advance_le _ _⟩
  case hkept =>
    intro e s c _ hc h t i he
    exact within_step hc (h t i he)
  case hanswer =>
    intro e s c _ hc h i j
    refine ⟨fun he he' => ?_, fun he he' => ?_, fun he he' => ?_⟩
    · exact le_of_forward (h _ i he) (he'.recorded hc).forward
    · exact lt_of_live (h _ i he) ((he'.recorded hc).live rfl)
    · exact le_of_forward (h _ i he) (he'.recorded hc).forward
  case hstep =>
    intro s c _ _
    trivial
  case hs => trivial
  case hP => exact along_of_forall_mem hlife

section Sample

def sampleStep : MonotonicState (NonceInput ℕ ℕ) (ℕ × Bytes32) → Call ℕ ℕ →
    MonotonicState (NonceInput ℕ ℕ) (ℕ × Bytes32) × Answer (NonceInput ℕ ℕ) ℕ :=
  step (fun _ => 0) id Prod.mk

def sampleCalls : List (Call ℕ ℕ) :=
  [.validateHolderCommitment 10 true, .validateHolderCommitment 9 true, .releaseCommitmentSecret 10 true,
    .signHolderCommitment 10 true, .signHolderCommitment 9 true, .signCounterpartyCommitment 9 true]

theorem secrets_forward_sample :
    (trace sampleStep .new sampleCalls).map Prod.snd = [.done, .done, .done, .refused, .done, .done] ∧
      (trace sampleStep .new sampleCalls).Pairwise fun e e' => ∀ i j,
        (Accepted e .secret i → Accepted e' .secret j → j ≤ i) ∧
        (Accepted e .secret i → Accepted e' .holder j → j < i) ∧
        (Accepted e .counterparty i → Accepted e' .counterparty j → j ≤ i) :=
  ⟨by decide, secrets_forward _ _ _ (by decide)⟩

theorem revoked_without_successor : ¬ ∀ before e behind i,
      trace sampleStep .new [.validateHolderCommitment 10 true, .releaseCommitmentSecret 10 true] =
        before ++ e :: behind → Accepted e .secret i → (∃ e' ∈ before, ∃ j, Accepted e' .holder j) →
      ∃ e' ∈ before, ∃ j < i, Accepted e' .holder j := by
  intro h
  obtain ⟨e, he, j, hj, haccepted⟩ := h [(.validateHolderCommitment 10 true, .done)]
    (.releaseCommitmentSecret 10 true, .done) [] 10 rfl ⟨rfl, by decide⟩ ⟨_, List.mem_singleton_self _, 10, rfl, by decide⟩
  cases List.mem_singleton.mp he
  cases haccepted.1
  exact absurd hj (lt_irrefl 10)

end Sample

variable {A N P D : Type} {sha256 : Bytes → Bytes32} {pub : NonceInput A N → P} {agg : N → Bytes32 → D}

structure Session (A N : Type) where
  domain : Domain
  height : ℕ
  round : Round A N

def Call.session (sha256 : Bytes → Bytes32) : Call A N → Option (Session A N)
  | .finalizeHolderCommitment idx r => some ⟨.holder, idx, r⟩
  | .partiallySignCounterpartyCommitment idx r _ => some ⟨.counterparty, idx, r⟩
  | .partiallySignClosingTransaction _ closingRound r => some ⟨.holder, closingNonceHeight closingRound, r⟩
  | .partiallySignSpliceSharedInput _ prevFundingTxid candidateIndex r =>
    some ⟨.holder, spliceNonceHeight sha256 prevFundingTxid candidateIndex, r⟩
  | .deadmanExit height r => some ⟨.deadMan, height, r⟩
  | _ => none

structure Session.Gives (pub : NonceInput A N → P) (k : Session A N) (q : PartialSignature P N) : Prop where
  peer : k.round.peer = some q.peer
  message : k.round.message = some q.message
  nonce : ∃ keyAgg ∈ k.round.keyAgg, q.nonce = pub (nonceInput keyAgg k.height q.peer q.message k.domain)

variable {s : MonotonicState P D} {c : Call A N}

/-- `presign_deadman_exit` has both halves: a dead-man exit is signed against the nonce that the other half derives. -/
def Call.CoHosted (other : NonceInput A N → N) : Call A N → Prop
  | .deadmanExit height r => ∀ keyAgg ∈ r.keyAgg, ∀ message ∈ r.message,
    r.peer = some (other ⟨keyAgg, .deadMan, height, some message, none⟩)
  | _ => True

theorem Call.CoHosted.peer_eq {other} (hc : c.CoHosted other) {k}
    (hk : k ∈ c.session sha256) (hdomain : k.domain = .deadMan) {keyAgg} (hkeyAgg : keyAgg ∈ k.round.keyAgg)
    {q} (hgives : k.Gives pub q) : q.peer = other ⟨keyAgg, .deadMan, k.height, some q.message, none⟩ := by
  cases c with
  | deadmanExit =>
    cases hk
    exact Option.some.inj (hgives.peer.symm.trans (hc keyAgg hkeyAgg q.message hgives.message))
  | _ => cases hk <;> cases hdomain

theorem nonceInput_inj {keyAgg keyAgg' : A} {height height' : ℕ} {peer peer' : N} {message message' : Bytes32}
    {domain domain' : Domain} (hdomain : domain ≠ .holder)
    (h : nonceInput keyAgg height peer message domain = nonceInput keyAgg' height' peer' message' domain') :
    domain = domain' ∧ keyAgg = keyAgg' ∧ height = height' ∧ message = message' ∧
      (domain = .counterparty → peer = peer') := by
  cases domain <;> cases domain' <;> simp_all [nonceInput]

theorem record_bindings {t idx s'} (h : record s t idx = some s') : s'.nonceBindings = s.nonceBindings := by
  rw [record] at h
  split at h
  · cases h
    rfl
  · cases h

theorem recordHolderCommitment_bindings {idx s'}
    (h : recordHolderCommitment s idx = some s') : s'.nonceBindings = s.nonceBindings := by
  rw [recordHolderCommitment] at h
  split at h
  · exact record_bindings h
  · cases h

variable [DecidableEq P]

inductive Binds (sha256 : Bytes → Bytes32) (pub : NonceInput A N → P) (agg : N → Bytes32 → D)
    (s : MonotonicState P D) (c : Call A N) (x : MonotonicState P D × Answer P N) : Prop
  | kept (h : x.1.nonceBindings = s.nonceBindings) (ha : ∀ q, x.2 ≠ .signed q)
  | bound (k : Session A N) (q : PartialSignature P N) (hk : k ∈ c.session sha256) (hgives : k.Gives pub q)
    (hfree : ∀ prev ∈ s.nonceBindings q.nonce, prev = agg q.peer q.message)
    (h : x.1.nonceBindings = update s.nonceBindings q.nonce (some (agg q.peer q.message)))
    (ha : x.2 = .signed q ∨ x.2 = .refused)

omit [DecidableEq P] in
theorem refused_unsigned (q : PartialSignature P N) : Answer.refused ≠ .signed q := by
  intro h
  cases h

theorem gated_binds {recorded next} (hrec : ∀ s', recorded = some s' → s'.nonceBindings = s.nonceBindings)
    (hnext : ∀ s', s'.nonceBindings = s.nonceBindings → Binds sha256 pub agg s c (next s')) :
    Binds sha256 pub agg s c (gated s recorded next) := by
  cases recorded with
  | none => exact .kept rfl refused_unsigned
  | some s' => exact hnext s' (hrec s' rfl)

theorem innerAnswer_binds (inner : Bool) {s'} (hs : s'.nonceBindings = s.nonceBindings) :
    Binds sha256 pub agg s c (innerAnswer inner s') := by
  refine .kept hs ?_
  intro q h
  cases inner <;> cases h

theorem Binds.refuse {x} (h : Binds sha256 pub agg s c x) (ok : Bool) :
    Binds sha256 pub agg s c (x.1, if ok then x.2 else .refused) := by
  cases ok with
  | true => exact h
  | false =>
    cases h with
    | kept h => exact .kept h refused_unsigned
    | bound k q hk hgives hfree h => exact .bound k q hk hgives hfree h (.inr rfl)

variable [DecidableEq D]

theorem keyPath_binds {domain height r} (hk : c.session sha256 = some ⟨domain, height, r⟩)
    {s'} (hs : s'.nonceBindings = s.nonceBindings) : Binds sha256 pub agg s c (keyPath pub agg s' domain height r) := by
  rw [keyPath]
  split
  · rename_i keyAgg peer message hkeyAgg hpeer hmessage
    split
    · exact .kept hs refused_unsigned
    · dsimp only
      rw [bindNonce, hs]
      split_ifs with hall
      · refine .bound _ ⟨_, peer, message⟩ hk ⟨hpeer, hmessage, keyAgg, hkeyAgg, rfl⟩ ?_ rfl (.inl rfl)
        intro prev hprev
        rw [Option.mem_def.mp hprev] at hall
        exact of_decide_eq_true hall
      · exact .kept hs refused_unsigned
  · exact .kept hs refused_unsigned

theorem step_binds (hc : c ≠ .restart) : Binds sha256 pub agg s c (step sha256 pub agg s c) := by
  cases c with
  | validateHolderCommitment idx inner | signHolderCommitment idx inner =>
    exact gated_binds (fun _ => recordHolderCommitment_bindings) fun _ => innerAnswer_binds inner
  | finalizeHolderCommitment =>
    exact gated_binds (fun _ => recordHolderCommitment_bindings) fun _ => keyPath_binds rfl
  | signCounterpartyCommitment idx inner | releaseCommitmentSecret idx inner =>
    exact gated_binds (fun _ => record_bindings) fun _ => innerAnswer_binds inner
  | partiallySignCounterpartyCommitment idx r htlcSigs =>
    exact gated_binds (fun _ => record_bindings) fun _ hs => (keyPath_binds rfl hs).refuse htlcSigs
  | partiallySignClosingTransaction paysHolder closingRound r
  | partiallySignSpliceSharedInput =>
    rw [step]
    split
    · exact keyPath_binds rfl rfl
    · exact .kept rfl refused_unsigned
  | deadmanExit => exact keyPath_binds rfl rfl
  | restart => exact absurd rfl hc

def Asked (sha256 : Bytes → Bytes32) (calls : List (Call A N)) (peer : N) (message : Bytes32) : Prop :=
  ∃ c ∈ calls, ∃ k ∈ c.session sha256, k.round.peer = some peer ∧ k.round.message = some message

theorem signed_bound {q} (h : (step sha256 pub agg s c).2 = .signed q) :
    c ≠ .restart ∧ ∃ k ∈ c.session sha256, k.Gives pub q ∧
      (∀ prev ∈ s.nonceBindings q.nonce, prev = agg q.peer q.message) ∧
      (step sha256 pub agg s c).1.nonceBindings q.nonce = some (agg q.peer q.message) := by
  have hc : c ≠ .restart := by
    rintro rfl
    cases h
  have hbinds : Binds sha256 pub agg s c (step sha256 pub agg s c) := step_binds hc
  refine ⟨hc, ?_⟩
  cases hbinds with
  | kept _ ha => exact absurd h (ha q)
  | bound k q' hk hgives hfree hs ha =>
    obtain rfl : q' = q := by
      cases ha with
      | inl ha => exact Answer.signed.inj (ha.symm.trans h)
      | inr ha => cases ha.symm.trans h
    exact ⟨k, hk, hgives, hfree, by rw [hs, update_self]⟩

theorem bindings_kept (hc : c ≠ .restart) {nonce d} (h : s.nonceBindings nonce = some d) :
    (step sha256 pub agg s c).1.nonceBindings nonce = some d := by
  have hbinds : Binds sha256 pub agg s c (step sha256 pub agg s c) := step_binds hc
  cases hbinds with
  | kept hs => rwa [hs]
  | bound k q _ _ hfree hs =>
    rw [hs]
    by_cases hq : nonce = q.nonce
    · subst hq
      rw [update_self, hfree d h]
    · rwa [update_of_ne hq]

/-- In one lifetime a nonce signs one pair of a peer's nonce and a message. -/
theorem lifetime_apart {calls} (hlife : ∀ c ∈ calls, c ≠ .restart)
    (hagg : ∀ peer message peer' message', Asked sha256 calls peer message → Asked sha256 calls peer' message' →
      agg peer message = agg peer' message' → peer = peer' ∧ message = message') :
    (trace (step sha256 pub agg) .new calls).Pairwise fun e e' => ∀ q q', e.2 = .signed q → e'.2 = .signed q' →
      q.nonce = q'.nonce → q.peer = q'.peer ∧ q.message = q'.message := by
  have hasked : ∀ (s : MonotonicState P D) (c : Call A N) (q : PartialSignature P N), c ∈ calls →
      (step sha256 pub agg s c).2 = .signed q → Asked sha256 calls q.peer q.message := by
    intro s c q hc h
    obtain ⟨-, k, hk, hgives, -⟩ := signed_bound h
    exact ⟨c, hc, k, hk, hgives.peer, hgives.message⟩
  apply trace_pairwise (I := fun _ => True) (P := fun _ c => c ∈ calls)
    (H := fun e s => ∀ q, e.2 = .signed q →
      Asked sha256 calls q.peer q.message ∧ s.nonceBindings q.nonce = some (agg q.peer q.message))
  case hleft =>
    intro s c _ hc q h
    obtain ⟨-, k, -, -, -, hs⟩ := signed_bound h
    exact ⟨hasked s c q hc h, hs⟩
  case hkept =>
    intro e s c _ hc h q hq
    exact ⟨(h q hq).1, bindings_kept (hlife c hc) (h q hq).2⟩
  case hanswer =>
    intro e s c _ hc h q q' hq hq' hnonce
    obtain ⟨hq, hbound⟩ := h q hq
    obtain ⟨-, k, -, -, hfree, -⟩ := signed_bound hq'
    rw [hnonce] at hbound
    exact hagg _ _ _ _ hq (hasked s c q' hc hq') (hfree _ hbound)
  case hstep =>
    intro s c _ _
    trivial
  case hs => trivial
  case hP => exact along_of_forall_mem fun _ hc => hc

/-- Over restarts the spices keep the other two domains apart. -/
theorem spiced_apart {calls : List (Call A N)} {other : NonceInput A N → N} (hpub : Function.Injective pub)
    {e e' : Call A N × Answer P N} (he : e ∈ trace (step sha256 pub agg) .new calls)
    (he' : e' ∈ trace (step sha256 pub agg) .new calls) {k : Session A N} (hk : k ∈ e.1.session sha256)
    (hdomain : k.domain ≠ .holder) {q q' : PartialSignature P N} (hq : e.2 = .signed q) (hq' : e'.2 = .signed q')
    (hnonce : q.nonce = q'.nonce) :
    q.message = q'.message ∧ (k.domain = .counterparty ∨ (∀ c ∈ calls, c.CoHosted other) → q.peer = q'.peer) := by
  obtain ⟨before, behind, hcalls, hanswer⟩ := mem_trace.mp he
  obtain ⟨before', behind', hcalls', hanswer'⟩ := mem_trace.mp he'
  obtain ⟨-, k₁, hk₁, hgives, -⟩ := signed_bound (hanswer.symm.trans hq)
  obtain ⟨-, k', hk', hgives', -⟩ := signed_bound (hanswer'.symm.trans hq')
  obtain rfl : k₁ = k := Option.mem_unique hk₁ hk
  obtain ⟨keyAgg, hkeyAgg, hn⟩ := hgives.nonce
  obtain ⟨keyAgg', hkeyAgg', hn'⟩ := hgives'.nonce
  obtain ⟨hdom, hkey, hheight, hmessage, hpeer⟩ := nonceInput_inj hdomain (hpub (hn.symm.trans (hnonce.trans hn')))
  refine ⟨hmessage, ?_⟩
  rintro (hcp | hhosted)
  · exact hpeer hcp
  · -- A counterparty's commitment is spiced anyway, and the other half answers a dead-man exit alike.
    cases hd : k₁.domain with
    | holder => exact absurd hd hdomain
    | counterparty => exact hpeer hd
    | deadMan =>
      have hc : e.1 ∈ calls := hcalls ▸ List.mem_append_right _ List.mem_cons_self
      have hc' : e'.1 ∈ calls := hcalls' ▸ List.mem_append_right _ List.mem_cons_self
      rw [(hhosted _ hc).peer_eq hk hd hkeyAgg hgives,
        (hhosted _ hc').peer_eq hk' (hdom.symm.trans hd) hkeyAgg' hgives', hkey, hheight, hmessage]

section Heights

theorem spliceNonceHeight_window (sha256 : Bytes → Bytes32) (txid candidate) :
    2 ^ 48 ≤ spliceNonceHeight sha256 txid candidate ∧ spliceNonceHeight sha256 txid candidate < 2 ^ 48 + 2 ^ 56 := by
  simp only [spliceNonceHeight]
  omega

theorem closingNonceHeight_above {round} (h : round < 2 ^ 63) : 2 ^ 63 ≤ closingNonceHeight round := by
  simp only [closingNonceHeight]
  omega

/-- There are more candidates of one splice than heights for them. -/
theorem spliceNonceHeight_collides (sha256 : Bytes → Bytes32) (txid : Bytes32) :
    ∃ i j, i ≠ j ∧ spliceNonceHeight sha256 txid i = spliceNonceHeight sha256 txid j := by
  have hcard : (Finset.Ico (2 ^ 48) (2 ^ 48 + 2 ^ 56)).card < (Finset.range (2 ^ 57)).card := by
    rw [Nat.card_Ico, Finset.card_range]
    omega
  obtain ⟨i, hi, j, hj, hij, heq⟩ := Finset.exists_ne_map_eq_of_card_lt_of_maps_to hcard
    (f := fun n => spliceNonceHeight sha256 txid (UInt64.ofNat n))
    (fun n _ => Finset.mem_Ico.mpr (spliceNonceHeight_window sha256 txid (UInt64.ofNat n)))
  refine ⟨UInt64.ofNat i, UInt64.ofNat j, ?_, heq⟩
  intro h
  have hmod := congrArg UInt64.toNat h
  rw [UInt64.toNat_ofNat', UInt64.toNat_ofNat'] at hmod
  have hi := Finset.mem_range.mp hi
  have hj := Finset.mem_range.mp hj
  omega

end Heights

/-- No nonce signs twice in one lifetime, and over restarts none of the two spiced domains does. -/
theorem nonces_apart {calls : List (Call A N)} (other : NonceInput A N → N) (hpub : Function.Injective pub)
    (hagg : ∀ peer message peer' message', Asked sha256 calls peer message → Asked sha256 calls peer' message' →
      agg peer message = agg peer' message' → peer = peer' ∧ message = message') : ((∀ c ∈ calls, c ≠ .restart) →
      (trace (step sha256 pub agg) .new calls).Pairwise fun e e' => ∀ q q', e.2 = .signed q → e'.2 = .signed q' →
        q.nonce = q'.nonce → q.peer = q'.peer ∧ q.message = q'.message) ∧
    (∀ e ∈ trace (step sha256 pub agg) .new calls, ∀ e' ∈ trace (step sha256 pub agg) .new calls,
      ∀ k ∈ e.1.session sha256, k.domain ≠ .holder → ∀ q q', e.2 = .signed q → e'.2 = .signed q' →
        q.nonce = q'.nonce → q.message = q'.message ∧
          (k.domain = .counterparty ∨ (∀ c ∈ calls, c.CoHosted other) → q.peer = q'.peer)) ∧
    ∀ idx < 2 ^ 48, ∀ txid candidate, ∀ round < 2 ^ 63, idx ≠ spliceNonceHeight sha256 txid candidate ∧
      idx ≠ closingNonceHeight round ∧ spliceNonceHeight sha256 txid candidate ≠ closingNonceHeight round ∧
      ∀ round' < 2 ^ 63, closingNonceHeight round = closingNonceHeight round' → round = round' := by
  refine ⟨fun hlife => lifetime_apart hlife hagg, ?_, ?_⟩
  · intro e he e' he' k hk hdomain q q' hq hq' hnonce
    exact spiced_apart hpub he he' hk hdomain hq hq' hnonce
  · intro idx hidx txid candidate round hround
    have hsplice := spliceNonceHeight_window sha256 txid candidate
    have hclose := closingNonceHeight_above hround
    refine ⟨by omega, by omega, by omega, ?_⟩
    intro round' hround' h
    simp only [closingNonceHeight] at h
    omega

section Sample

def sampleRound (peer : ℕ) (message : Bytes32) : Round ℕ ℕ := ⟨some 7, some peer, some message, true⟩

def sampleHalf (x : NonceInput ℕ ℕ) : ℕ := x.height

def sampleExits (peer peer' : ℕ) : List (Call ℕ ℕ) :=
  [.deadmanExit 3 (sampleRound peer 9), .restart, .deadmanExit 3 (sampleRound peer' 9)]

theorem nonces_apart_sample :
    (trace sampleStep .new (sampleExits 3 3)).map Prod.snd = [.signed ⟨⟨7, .deadMan, 3, some 9, none⟩, 3, 9⟩, .done,
        .signed ⟨⟨7, .deadMan, 3, some 9, none⟩, 3, 9⟩] ∧
      ∀ e ∈ trace sampleStep .new (sampleExits 3 3), ∀ e' ∈ trace sampleStep .new (sampleExits 3 3),
        ∀ k ∈ e.1.session fun _ => 0, k.domain ≠ .holder → ∀ q q', e.2 = .signed q → e'.2 = .signed q' →
          q.nonce = q'.nonce → q.message = q'.message ∧
            (k.domain = .counterparty ∨ (∀ c ∈ sampleExits 3 3, c.CoHosted sampleHalf) → q.peer = q'.peer) :=
  ⟨by decide, (nonces_apart sampleHalf Function.injective_id fun _ _ _ _ _ _ h => Prod.mk.inj h).2.1⟩

theorem exits_share_nonce :
    ¬ ∀ e ∈ trace sampleStep .new (sampleExits 1 2), ∀ e' ∈ trace sampleStep .new (sampleExits 1 2),
      ∀ k ∈ e.1.session fun _ => 0, k.domain ≠ .holder → ∀ q q', e.2 = .signed q → e'.2 = .signed q' →
        q.nonce = q'.nonce → q.peer = q'.peer ∧ q.message = q'.message := by
  intro h
  have hpeer := h (.deadmanExit 3 (sampleRound 1 9), .signed ⟨⟨7, .deadMan, 3, some 9, none⟩, 1, 9⟩) (by decide)
    (.deadmanExit 3 (sampleRound 2 9), .signed ⟨⟨7, .deadMan, 3, some 9, none⟩, 2, 9⟩) (by decide)
    ⟨.deadMan, 3, sampleRound 1 9⟩ rfl (by decide) _ _ rfl rfl rfl
  exact absurd hpeer.1 (by decide)

end Sample

end QuidProtocol.Signer
