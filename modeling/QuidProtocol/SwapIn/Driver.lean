import Mathlib.Data.Prod.Lex
import Mathlib.Data.List.Sort
import QuidProtocol.SwapIn.Registry

/-!
`swap_in_onchain.rs` of the bridge: the watcher of on-chain swap-ins.
What the passes after a settlement make of the deposit.
-/

namespace QuidProtocol.SwapIn

open Lib Btc
open Spv (Bytes32)

@[ext]
structure OutPoint where
  txid : Bytes32
  vout : ℕ
  deriving DecidableEq

structure ScannedOutput where
  outpoint : OutPoint
  value : ℕ
  spk : Bytes
  blockHeight : Option ℕ
  deriving DecidableEq

structure ConfirmedDeposit where
  outpoint : OutPoint
  value : ℕ
  deriving DecidableEq

def ScannedOutput.buried (o : ScannedOutput) (tip minConfs : ℕ) : Bool :=
  match o.blockHeight with
  | some h => h ≤ tip ∧ minConfs ≤ tip - h + 1
  | none => false

def ScannedOutput.sortKey (o : ScannedOutput) : ℕ ×ₗ ℕ ×ₗ ℕ :=
  toLex (o.blockHeight.getD (2 ^ 32 - 1), toLex (o.outpoint.txid.toNat, o.outpoint.vout))

def candidates (outs : List ScannedOutput) (depositSpk : Bytes) (tip minConfs : ℕ) : List ScannedOutput :=
  (outs.filter fun o => o.spk = depositSpk ∧ 0 < o.value).filter fun o => o.buried tip minConfs

def findConfirmedDeposit (outs : List ScannedOutput) (depositSpk : Bytes) (tip minConfs : ℕ) :
    Option ConfirmedDeposit :=
  let cands := (candidates outs depositSpk tip minConfs).insertionSort fun o o' => o.sortKey ≤ o'.sortKey
  cands.head?.map fun o => ⟨o.outpoint, o.value⟩

inductive SettleOutcome
  | delivered (consumedSats : ℕ)
  | alreadySettled (consumedSats : ℕ)
  | undeliverable

inductive OnchainAction
  | claim (refundSats : ℕ)
  | dropToRefund

def outcomeAction (outcome : SettleOutcome) (actualSats : ℕ) : OnchainAction :=
  match outcome with
  | .delivered consumedSats => .claim (actualSats - consumedSats)
  | .alreadySettled consumedSats => .claim (actualSats - consumedSats)
  | .undeliverable => .dropToRefund

def minCltvHeadroomBlocks : ℕ := 72

def cltvHeadroomOk (cltv : LockTime) (bestHeight : ℕ) : Bool :=
  match cltv with
  | .blocks h => bestHeight ≤ h.toNat ∧ minCltvHeadroomBlocks ≤ h.toNat - bestHeight
  | .seconds _ => false

structure Settlement where
  consumed : ℕ
  block : ℕ

abbrev Settled := Bytes32 → Option Settlement

structure SettleAnswers where
  receipt : Bool
  landsUnseen : Bool
  block : ℕ
  pool : Option ℕ
  usedRead : Bool
  head : ℕ
  logsRead : Bool

def settleOnChain (settled : Settled) (txid : Bytes32) (block : ℕ) (pool : Option ℕ) : Settled × Bool :=
  match settled txid, pool with
  | none, some consumed => (Function.update settled txid (some ⟨consumed, block⟩), true)
  | _, _ => (settled, false)

def swapInSettledLookbackBlocks : ℕ := 100000

def readConsumedSats (settled : Settled) (txid : Bytes32) (fromBlock toBlock sats : ℕ) (logsRead : Bool) : Option ℕ :=
  match settled txid with
  | some m => if logsRead ∧ fromBlock ≤ m.block ∧ m.block ≤ toBlock then some (min m.consumed sats) else none
  | none => none

inductive Transient
  | transient

def settleSwapInProven (settled : Settled) (txid : Bytes32) (sats : ℕ) (a : SettleAnswers) :
    Settled × Except Transient SettleOutcome :=
  let mined := settleOnChain settled txid a.block a.pool
  if ¬ a.receipt then (if a.landsUnseen then mined.1 else settled, .error .transient)
  else if ¬ a.usedRead then (mined.1, .error .transient)
  else if (mined.1 txid).isSome then
    if mined.2 then
      (mined.1, (found .transient (readConsumedSats mined.1 txid a.block a.block sats a.logsRead)).map .delivered)
    else
      (mined.1, (found .transient (readConsumedSats mined.1 txid (a.head - swapInSettledLookbackBlocks) a.head sats
        a.logsRead)).map .alreadySettled)
  else if mined.2 then (mined.1, .error .transient)
  else (mined.1, .ok .undeliverable)

structure Answers where
  scanOk : Bool
  inclusionOk : Bool
  settle : SettleAnswers
  broadcastOk : Bool

structure BtcIndex where
  outputs : List ScannedOutput
  unique : ∀ o ∈ outputs, ∀ o' ∈ outputs, o.outpoint = o'.outpoint → o = o'

structure Pass where
  tip : ℕ
  fee : ℕ
  index : BtcIndex
  answers : Bytes32 → Answers

inductive Action
  | delivered (swapId : Bytes32) (deposit : ConfirmedDeposit)
  | claim (swapId : Bytes32) (deposit : ConfirmedDeposit) (refundSats : ℕ) (ok : Bool)
  deriving DecidableEq

def Action.swapId : Action → Bytes32
  | .delivered swapId _ => swapId
  | .claim swapId _ _ _ => swapId

def Action.deposit : Action → ConfirmedDeposit
  | .delivered _ deposit => deposit
  | .claim _ deposit _ _ => deposit

structure WatchState where
  registry : Registry
  settled : Settled
  down : Bool

def OnchainSwapIn.spk (swap : OnchainSwapIn) : Bytes := buildTaprootScriptPubKey swap.depositKey

def SettleOutcome.isDelivered : SettleOutcome → Bool
  | .delivered _ => true
  | _ => false

def decideDeposit (settled : Settled) (swap : OnchainSwapIn) (deposit : ConfirmedDeposit) (bestHeight : ℕ)
    (a : SettleAnswers) : Settled × Except Transient (Option SettleOutcome) :=
  if ¬ cltvHeadroomOk swap.deposit.cltv bestHeight then (settled, .ok none)
  else
    let r := settleSwapInProven settled deposit.outpoint.txid deposit.value a
    (r.1, r.2.map some)

def LockTime.expired (cltv : LockTime) (tip : ℕ) : Bool :=
  match cltv with
  | .blocks h => h.toNat ≤ tip
  | .seconds _ => false

def minimalNonDust : ℕ := 330

def claimOutput (value fee refundSats : ℕ) : Option ℕ :=
  let refund := if refundSats < minimalNonDust then 0 else refundSats
  if fee + refund ≤ value then some (value - fee - refund) else none

def claimDeposit (x : WatchState) (swap : OnchainSwapIn) (deposit : ConfirmedDeposit) (outcome : SettleOutcome)
    (fee : ℕ) (broadcastOk : Bool) : WatchState × List Action :=
  let delivered := if outcome.isDelivered then [Action.delivered swap.swapId deposit] else []
  match outcomeAction outcome deposit.value with
  | .claim refundSats =>
    match claimOutput deposit.value fee refundSats with
    | some _ =>
      (if broadcastOk then { x with registry := x.registry.remove swap.swapId } else x,
        delivered ++ [.claim swap.swapId deposit refundSats broadcastOk])
    | none => ({ x with down := true }, delivered)
  | .dropToRefund => (x, delivered)

def driveOneSwapIn (minConfs : ℕ) (pass : Pass) (x : WatchState) (swap : OnchainSwapIn) : WatchState × List Action :=
  let a := pass.answers swap.swapId
  if x.down then (x, [])
  else if swap.deposit.cltv.expired pass.tip then ({ x with registry := x.registry.remove swap.swapId }, [])
  else if ¬ a.scanOk then (x, [])
  else
    match findConfirmedDeposit pass.index.outputs swap.spk pass.tip minConfs with
    | none => (x, [])
    | some deposit =>
      if ¬ a.inclusionOk then (x, [])
      else
        let r := decideDeposit x.settled swap deposit pass.tip a.settle
        let x := { x with settled := r.1 }
        match r.2 with
        | .ok (some outcome) => claimDeposit x swap deposit outcome pass.fee a.broadcastOk
        | _ => (x, [])

def driveSwapInPass (minConfs : ℕ) (x : WatchState) (pass : Pass) : WatchState × List Action :=
  let x := { x with down := false }
  (Machine.run (driveOneSwapIn minConfs pass) x x.registry.pending,
    (Machine.trace (driveOneSwapIn minConfs pass) x x.registry.pending).flatMap Prod.snd)

section Selection

variable {outs : List ScannedOutput} {spk : Bytes} {tip minConfs : ℕ} {d : ConfirmedDeposit}

theorem mem_candidates {o} : o ∈ candidates outs spk tip minConfs ↔
    o ∈ outs ∧ o.spk = spk ∧ 0 < o.value ∧ o.buried tip minConfs = true := by
  simp only [candidates, List.mem_filter, decide_eq_true_eq, and_assoc]

theorem exists_of_findConfirmedDeposit (h : findConfirmedDeposit outs spk tip minConfs = some d) :
    ∃ o ∈ candidates outs spk tip minConfs, d = ⟨o.outpoint, o.value⟩ ∧
      ∀ o' ∈ candidates outs spk tip minConfs, o.sortKey ≤ o'.sortKey := by
  obtain ⟨o, hhead, rfl⟩ := Option.map_eq_some_iff.mp h
  obtain ⟨rest, hsorted⟩ := List.head?_eq_some_iff.mp hhead
  have hperm {o' : ScannedOutput} := List.mem_insertionSort (fun o o' : ScannedOutput => o.sortKey ≤ o'.sortKey)
    (l := candidates outs spk tip minConfs) (x := o')
  rw [hsorted] at hperm
  have hpairs := List.pairwise_insertionSort (fun o o' : ScannedOutput => o.sortKey ≤ o'.sortKey)
    (candidates outs spk tip minConfs)
  rw [hsorted] at hpairs
  refine ⟨o, hperm.mp List.mem_cons_self, rfl, fun o' ho' => ?_⟩
  rcases List.mem_cons.mp (hperm.mpr ho') with rfl | hmem
  · exact le_rfl
  · exact (List.pairwise_cons.mp hpairs).1 o' hmem

theorem findConfirmedDeposit_isSome {o} (h : o ∈ candidates outs spk tip minConfs) :
    ∃ d, findConfirmedDeposit outs spk tip minConfs = some d := by
  have hmem := (List.mem_insertionSort (fun o o' : ScannedOutput => o.sortKey ≤ o'.sortKey)).mpr h
  unfold findConfirmedDeposit
  dsimp only
  cases hsort : (candidates outs spk tip minConfs).insertionSort fun o o' => o.sortKey ≤ o'.sortKey with
  | nil =>
    rw [hsort] at hmem
    cases hmem
  | cons => exact ⟨_, rfl⟩

end Selection

def Follows (p q : Pass) : Prop :=
  p.tip ≤ q.tip ∧ ∀ o : ScannedOutput, ∀ h ∈ o.blockHeight, h ≤ p.tip → (o ∈ p.index.outputs ↔ o ∈ q.index.outputs)

theorem Follows.trans {p q r} (h : Follows p q) (h' : Follows q r) : Follows p r :=
  ⟨h.1.trans h'.1, fun o k hk hle => (h.2 o k hk hle).trans (h'.2 o k hk (hle.trans h.1))⟩

instance instTransFollows : Trans Follows Follows Follows := ⟨Follows.trans⟩

variable {tip minConfs : ℕ} {d : ConfirmedDeposit} {settled : Settled} {m : Settlement} {r : WatchState × List Action}

theorem buried_iff {o : ScannedOutput} :
    o.buried tip minConfs = true ↔ ∃ h ∈ o.blockHeight, h ≤ tip ∧ minConfs ≤ tip - h + 1 := by
  unfold ScannedOutput.buried
  cases o.blockHeight with
  | none | some h => simp

theorem outpoint_eq_of_sortKey_eq {o o' : ScannedOutput} (h : o.sortKey = o'.sortKey) : o.outpoint = o'.outpoint := by
  have hids : (o.outpoint.txid.toNat, o.outpoint.vout) = (o'.outpoint.txid.toNat, o'.outpoint.vout) :=
    congrArg (fun k => ofLex (ofLex k).2) h
  exact OutPoint.ext (BitVec.eq_of_toNat_eq (congrArg Prod.fst hids)) (congrArg Prod.snd hids)

theorem findConfirmedDeposit_stable {p q : Pass} {spk : Bytes}
    (hfollows : Follows p q) (hfind : findConfirmedDeposit p.index.outputs spk p.tip minConfs = some d) :
    findConfirmedDeposit q.index.outputs spk q.tip minConfs = some d := by
  obtain ⟨o, ho, rfl, hfirst⟩ := exists_of_findConfirmedDeposit hfind
  obtain ⟨hmem, hspk, hvalue, hburied⟩ := mem_candidates.mp ho
  obtain ⟨h, hh, hle, hdeep⟩ := buried_iff.mp hburied
  have htip := hfollows.1
  have ho' : o ∈ candidates q.index.outputs spk q.tip minConfs :=
    mem_candidates.mpr ⟨(hfollows.2 o h hh hle).mp hmem, hspk, hvalue, buried_iff.mpr ⟨h, hh, by omega, by omega⟩⟩
  obtain ⟨d', hd'⟩ := findConfirmedDeposit_isSome ho'
  obtain ⟨o', hcand, rfl, hfirst'⟩ := exists_of_findConfirmedDeposit hd'
  obtain ⟨hmem', hspk', hvalue', hburied'⟩ := mem_candidates.mp hcand
  obtain ⟨h', hh', hle', hdeep'⟩ := buried_iff.mp hburied'
  -- what comes first now is no higher, so it was a candidate before
  have hkey := hfirst' o ho'
  have hheight : h' ≤ h := by
    have hlex := Prod.Lex.toLex_le_toLex.mp hkey
    rw [Option.mem_def.mp hh, Option.mem_def.mp hh'] at hlex
    rcases hlex with hlt | heq
    · exact le_of_lt hlt
    · exact heq.1.le
  have hmemp : o' ∈ p.index.outputs := (hfollows.2 o' h' hh' (hheight.trans hle)).mpr hmem'
  have hcandp : o' ∈ candidates p.index.outputs spk p.tip minConfs :=
    mem_candidates.mpr ⟨hmemp, hspk', hvalue', buried_iff.mpr ⟨h', hh', by omega, by omega⟩⟩
  have hsame := outpoint_eq_of_sortKey_eq (le_antisymm hkey (hfirst o' hcandp))
  rw [hd', p.index.unique o' hmemp o hmem hsame]

section Settling

variable {settled : Settled} {txid t : Bytes32} {block sats : ℕ} {pool : Option ℕ} {m : Settlement} {a : SettleAnswers}

theorem settleOnChain_of_some (h : settled txid = some m) :
    settleOnChain settled txid block pool = (settled, false) := by
  unfold settleOnChain
  rw [h]

theorem settleOnChain_keeps (txid block) (pool : Option ℕ) (h : settled t = some m) :
    (settleOnChain settled txid block pool).1 t = some m := by
  by_cases ht : t = txid
  · subst ht
    rw [settleOnChain_of_some h]
    exact h
  · unfold settleOnChain
    cases settled txid with
    | some => exact h
    | none =>
      cases pool with
      | none => exact h
      | some =>
        dsimp only
        rw [Function.update_of_ne ht, h]

theorem settleSwapInProven_keeps (h : settled t = some m) : (settleSwapInProven settled txid sats a).1 t = some m := by
  have hmined := settleOnChain_keeps txid a.block a.pool h
  unfold settleSwapInProven
  dsimp only
  split_ifs <;> first | exact hmined | exact h

theorem settled_of_delivered {outcome} (hdelivered : outcome.isDelivered = true)
    (h : (settleSwapInProven settled txid sats a).2 = .ok outcome) :
    ∃ m, (settleSwapInProven settled txid sats a).1 txid = some m := by
  unfold settleSwapInProven at h ⊢
  dsimp only at h ⊢
  split_ifs at h ⊢ with hreceipt hread hused hmined
  · exact Option.isSome_iff_exists.mp hused
  · exact Option.isSome_iff_exists.mp hused
  · cases h
    cases hdelivered

theorem settleSwapInProven_again (h : settled txid = some m) (hreceipt : a.receipt = true) (hread : a.usedRead = true)
    (hlogs : a.logsRead = true) (hlow : m.block ≤ a.head) (hhigh : a.head ≤ m.block + swapInSettledLookbackBlocks) :
    settleSwapInProven settled txid sats a = (settled, .ok (.alreadySettled (min m.consumed sats))) := by
  have hrange : a.head - swapInSettledLookbackBlocks ≤ m.block := by omega
  unfold settleSwapInProven
  rw [settleOnChain_of_some h]
  simp [hreceipt, hread, hlogs, h, readConsumedSats, hrange, hlow, found, Except.map]

end Settling

variable {minConfs : ℕ} {pass : Pass} {x : WatchState} {swap swap' : OnchainSwapIn} {deposit : ConfirmedDeposit}
  {outcome : SettleOutcome} {fee : ℕ} {broadcastOk : Bool}

theorem claimDeposit_settled : (claimDeposit x swap deposit outcome fee broadcastOk).1.settled = x.settled := by
  unfold claimDeposit
  dsimp only
  split
  · split
    · split_ifs <;> rfl
    · rfl
  · rfl

theorem claimDeposit_registry : (claimDeposit x swap deposit outcome fee broadcastOk).1.registry = x.registry ∨
      (claimDeposit x swap deposit outcome fee broadcastOk).1.registry = x.registry.remove swap.swapId ∧
        ∃ n, Action.claim swap.swapId deposit n true ∈ (claimDeposit x swap deposit outcome fee broadcastOk).2 := by
  unfold claimDeposit
  dsimp only
  split
  · split
    · cases broadcastOk with
      | true => exact .inr ⟨rfl, _, List.mem_append_right _ List.mem_cons_self⟩
      | false => exact .inl rfl
    · exact .inl rfl
  · exact .inl rfl

theorem mem_claimDeposit {action} (h : action ∈ (claimDeposit x swap deposit outcome fee broadcastOk).2) :
    action.swapId = swap.swapId ∧ action.deposit = deposit ∧
      (action = .delivered swap.swapId deposit → outcome.isDelivered = true) := by
  have hlist : action = .delivered swap.swapId deposit ∧ outcome.isDelivered = true ∨
      ∃ n, action = .claim swap.swapId deposit n broadcastOk := by
    unfold claimDeposit at h
    dsimp only at h
    split at h
    · split at h
      · simp at h
        exact h.imp And.symm fun h => ⟨_, h⟩
      · simp at h
        exact .inl h.symm
    · simp at h
      exact .inl h.symm
  rcases hlist with ⟨rfl, hdelivered⟩ | ⟨n, rfl⟩
  · exact ⟨rfl, rfl, fun _ => hdelivered⟩
  · refine ⟨rfl, rfl, ?_⟩
    rintro ⟨⟩

inductive Drive (minConfs : ℕ) (pass : Pass) (x : WatchState) (swap : OnchainSwapIn) : WatchState × List Action → Prop
  | idle : Drive minConfs pass x swap (x, [])
  | pruned (h : swap.deposit.cltv.expired pass.tip = true) :
    Drive minConfs pass x swap ({ x with registry := x.registry.remove swap.swapId }, [])
  | undecided (deposit : ConfirmedDeposit) : Drive minConfs pass x swap
    ({ x with settled := (decideDeposit x.settled swap deposit pass.tip (pass.answers swap.swapId).settle).1 }, [])
  | decided (deposit : ConfirmedDeposit) (outcome : SettleOutcome)
    (hfind : findConfirmedDeposit pass.index.outputs swap.spk pass.tip minConfs = some deposit)
    (hdecide : (decideDeposit x.settled swap deposit pass.tip (pass.answers swap.swapId).settle).2 = .ok (some outcome)) :
    Drive minConfs pass x swap (claimDeposit
      { x with settled := (decideDeposit x.settled swap deposit pass.tip (pass.answers swap.swapId).settle).1 }
      swap deposit outcome pass.fee (pass.answers swap.swapId).broadcastOk)

theorem driveOneSwapIn_drive : Drive minConfs pass x swap (driveOneSwapIn minConfs pass x swap) := by
  unfold driveOneSwapIn
  dsimp only
  split
  · exact .idle
  split
  · rename_i hexpired
    exact .pruned hexpired
  split
  · exact .idle
  cases hfind : findConfirmedDeposit pass.index.outputs swap.spk pass.tip minConfs with
  | none => exact .idle
  | some deposit =>
    dsimp only
    split
    · exact .idle
    cases hdecide : (decideDeposit x.settled swap deposit pass.tip (pass.answers swap.swapId).settle).2 with
    | error => exact .undecided deposit
    | ok answer =>
      cases answer with
      | none => exact .undecided deposit
      | some outcome => exact .decided deposit outcome hfind hdecide

theorem decideDeposit_keeps {t} (tip a)
    (h : settled t = some m) : (decideDeposit settled swap deposit tip a).1 t = some m := by
  unfold decideDeposit
  split
  · exact h
  · exact settleSwapInProven_keeps h

theorem decideDeposit_some {a} (h : (decideDeposit settled swap deposit tip a).2 = .ok (some outcome)) :
    (settleSwapInProven settled deposit.outpoint.txid deposit.value a).2 = .ok outcome ∧
      (decideDeposit settled swap deposit tip a).1 =
        (settleSwapInProven settled deposit.outpoint.txid deposit.value a).1 := by
  unfold decideDeposit at h ⊢
  split at h
  · cases h
  · obtain ⟨outcome', hsettle, hsome⟩ := map_eq_ok.mp h
    cases hsome
    rw [if_neg ‹_›]
    exact ⟨hsettle, rfl⟩

theorem Drive.keeps {t} (h : Drive minConfs pass x swap r) (ht : x.settled t = some m) : r.1.settled t = some m := by
  cases h with
  | idle | pruned => exact ht
  | undecided => exact decideDeposit_keeps _ _ ht
  | decided =>
    rw [claimDeposit_settled]
    exact decideDeposit_keeps _ _ ht

theorem mem_remove_of_ne {r : Registry} (h : swap ∈ r.pending) (hne : swap.swapId ≠ swap'.swapId) :
    swap ∈ (r.remove swap'.swapId).pending :=
  List.mem_filter.mpr ⟨h, decide_eq_true hne⟩

theorem Drive.mem (h : Drive minConfs pass x swap' r) (hswap : swap ∈ x.registry.pending)
    (hsame : swap'.swapId = swap.swapId → swap' = swap) (hlive : swap.deposit.cltv.expired pass.tip = false)
    (hunclaimed : ∀ d n, Action.claim swap.swapId d n true ∉ r.2) : swap ∈ r.1.registry.pending := by
  by_cases hid : swap'.swapId = swap.swapId
  · obtain rfl := hsame hid
    cases h with
    | idle | undecided deposit => exact hswap
    | pruned hexpired =>
      rw [hlive] at hexpired
      cases hexpired
    | decided deposit =>
      rcases claimDeposit_registry with hkept | ⟨_, n, hclaim⟩
      · rw [hkept]
        exact hswap
      · exact (hunclaimed deposit n hclaim).elim
  · cases h with
    | idle | undecided deposit => exact hswap
    | pruned => exact mem_remove_of_ne hswap (Ne.symm hid)
    | decided =>
      rcases claimDeposit_registry with hkept | ⟨hremoved, _⟩
      · rw [hkept]
        exact hswap
      · rw [hremoved]
        exact mem_remove_of_ne hswap (Ne.symm hid)

theorem Drive.of_mem {action} (h : Drive minConfs pass x swap r) (ha : action ∈ r.2) : action.swapId = swap.swapId ∧
      findConfirmedDeposit pass.index.outputs swap.spk pass.tip minConfs = some action.deposit := by
  cases h with
  | idle | pruned | undecided deposit => cases ha
  | decided deposit outcome hfind =>
    obtain ⟨hid, rfl, -⟩ := mem_claimDeposit ha
    exact ⟨hid, hfind⟩

theorem Drive.settled_of_delivered (h : Drive minConfs pass x swap r) (hd : Action.delivered swap.swapId d ∈ r.2) :
    ∃ m, r.1.settled d.outpoint.txid = some m := by
  cases h with
  | idle | pruned | undecided deposit => cases hd
  | decided _ _ _ hdecide =>
    obtain ⟨-, rfl, hdelivered⟩ := mem_claimDeposit hd
    obtain ⟨hsettle, hsettled⟩ := decideDeposit_some hdecide
    rw [claimDeposit_settled, hsettled]
    exact SwapIn.settled_of_delivered (hdelivered rfl) hsettle

structure Answers.ReadsOk (a : Answers) : Prop where
  scan : a.scanOk = true
  inclusion : a.inclusionOk = true
  receipt : a.settle.receipt = true
  used : a.settle.usedRead = true
  logs : a.settle.logsRead = true

def SettleAnswers.Reaches (a : SettleAnswers) (m : Settlement) : Prop :=
  m.block ≤ a.head ∧ a.head ≤ m.block + swapInSettledLookbackBlocks

theorem cltvHeadroomOk_iff {cltv} :
    cltvHeadroomOk cltv tip = true ↔ ∃ h, cltv = .blocks h ∧ tip + minCltvHeadroomBlocks ≤ h.toNat := by
  cases cltv with
  | blocks k =>
    simp only [cltvHeadroomOk, decide_eq_true_iff, LockTime.blocks.injEq, exists_eq_left']
    omega
  | seconds => simp [cltvHeadroomOk]

theorem not_expired_of_headroom {cltv tip'} (h : cltvHeadroomOk cltv tip = true)
    (hle : tip' ≤ tip) : cltv.expired tip' = false := by
  obtain ⟨k, rfl, hroom⟩ := cltvHeadroomOk_iff.mp h
  apply decide_eq_false
  unfold minCltvHeadroomBlocks at hroom
  omega

theorem decideDeposit_again {a}
    (hroom : cltvHeadroomOk swap.deposit.cltv tip = true) (hm : settled deposit.outpoint.txid = some m)
    (hreceipt : a.receipt = true) (hread : a.usedRead = true) (hlogs : a.logsRead = true) (hreach : a.Reaches m) :
    decideDeposit settled swap deposit tip a =
      (settled, .ok (some (.alreadySettled (min m.consumed deposit.value)))) := by
  unfold decideDeposit
  rw [if_neg (not_not_intro hroom), settleSwapInProven_again hm hreceipt hread hlogs hreach.1 hreach.2]
  rfl

theorem driveOneSwapIn_settled (hup : x.down = false)
    (hroom : cltvHeadroomOk swap.deposit.cltv pass.tip = true) (hreads : (pass.answers swap.swapId).ReadsOk)
    (hfind : findConfirmedDeposit pass.index.outputs swap.spk pass.tip minConfs = some d)
    (hm : x.settled d.outpoint.txid = some m) (hreach : (pass.answers swap.swapId).settle.Reaches m) :
    (driveOneSwapIn minConfs pass x swap).1.down = true ∨
      ∃ n ok, Action.claim swap.swapId d n ok ∈ (driveOneSwapIn minConfs pass x swap).2 := by
  have hdecide := decideDeposit_again hroom hm hreads.receipt hreads.used hreads.logs hreach
  have hlive := not_expired_of_headroom hroom le_rfl
  have hdrive : driveOneSwapIn minConfs pass x swap = claimDeposit { x with settled := x.settled } swap d
      (.alreadySettled (min m.consumed d.value)) pass.fee (pass.answers swap.swapId).broadcastOk := by
    unfold driveOneSwapIn
    rw [if_neg (Bool.eq_false_iff.mp hup), if_neg (Bool.eq_false_iff.mp hlive), if_neg (not_not_intro hreads.scan),
      hfind]
    dsimp only
    rw [if_neg (not_not_intro hreads.inclusion), hdecide]
  rw [hdrive]
  unfold claimDeposit
  dsimp only [outcomeAction]
  split
  · exact .inr ⟨_, _, List.mem_append_right _ List.mem_cons_self⟩
  · exact .inl rfl

theorem Drive.down (h : Drive minConfs pass x swap r) (hdown : x.down = true) : r.1.down = true := by
  cases h with
  | idle | pruned | undecided deposit => exact hdown
  | decided =>
    unfold claimDeposit
    dsimp only
    split
    · split
      · split_ifs <;> exact hdown
      · rfl
    · exact hdown

section Passes

open Machine

theorem eq_of_swapId_eq {r : Registry} (h : swap ∈ r.pending) (h' : swap' ∈ r.pending)
    (hid : swap'.swapId = swap.swapId) : swap' = swap :=
  List.inj_on_of_nodup_map r.nodup h' h hid

variable {swaps : List OnchainSwapIn}

variable {m : Settlement}

theorem run_driveOneSwapIn_keeps {t} (h : x.settled t = some m) :
    (run (driveOneSwapIn minConfs pass) x swaps).settled t = some m :=
  run_kept (I := fun y : WatchState => y.settled t = some m) (fun _ _ => driveOneSwapIn_drive.keeps) h

theorem run_driveOneSwapIn_down (h : x.down = true) : (run (driveOneSwapIn minConfs pass) x swaps).down = true :=
  run_kept (I := fun y : WatchState => y.down = true) (fun _ _ => driveOneSwapIn_drive.down) h

theorem driveSwapInPass_keeps {t} (h : x.settled t = some m) : (driveSwapInPass minConfs x pass).1.settled t = some m :=
  run_driveOneSwapIn_keeps h

section

variable (hswap : swap ∈ x.registry.pending)

include hswap

theorem mem_driveSwapInPass (hlive : swap.deposit.cltv.expired pass.tip = false)
    (hunclaimed : ∀ d n, Action.claim swap.swapId d n true ∉ (driveSwapInPass minConfs x pass).2) :
    swap ∈ (driveSwapInPass minConfs x pass).1.registry.pending := by
  have hnone : ∀ e ∈ trace (driveOneSwapIn minConfs pass) { x with down := false } x.registry.pending,
      ∀ d n, Action.claim swap.swapId d n true ∉ e.2 :=
    fun e he d n hmem => hunclaimed d n (List.mem_flatMap.mpr ⟨e, he, hmem⟩)
  have halong := (along_of_forall_trace hnone).and_forall_mem (R := fun c => c.swapId = swap.swapId → c = swap)
    fun c hc => eq_of_swapId_eq hswap hc
  exact run_invariant (I := fun y => swap ∈ y.registry.pending)
    (fun y c hy hc => driveOneSwapIn_drive.mem hy hc.2 hlive hc.1) hswap halong

theorem mem_driveSwapInPass_answer {action : Action}
    (hid : action.swapId = swap.swapId) (h : action ∈ (driveSwapInPass minConfs x pass).2) :
    ∃ before behind, x.registry.pending = before ++ swap :: behind ∧ action ∈ (driveOneSwapIn minConfs pass
        (run (driveOneSwapIn minConfs pass) { x with down := false } before) swap).2 := by
  obtain ⟨e, he, ha⟩ := List.mem_flatMap.mp h
  obtain ⟨before, behind, hpending, hanswer⟩ := mem_trace.mp he
  rw [hanswer] at ha
  have hmem : e.1 ∈ x.registry.pending := by
    rw [hpending]
    exact List.mem_append_right _ List.mem_cons_self
  have hsame := eq_of_swapId_eq hswap hmem ((driveOneSwapIn_drive.of_mem ha).1.symm.trans hid)
  rw [hsame] at hpending ha
  exact ⟨before, behind, hpending, ha⟩

theorem found_of_mem_driveSwapInPass {action}
    (hid : action.swapId = swap.swapId) (h : action ∈ (driveSwapInPass minConfs x pass).2) :
    findConfirmedDeposit pass.index.outputs swap.spk pass.tip minConfs = some action.deposit := by
  obtain ⟨before, behind, -, ha⟩ := mem_driveSwapInPass_answer hswap hid h
  exact (driveOneSwapIn_drive.of_mem ha).2

theorem settled_of_delivered_mem {d} (h : Action.delivered swap.swapId d ∈ (driveSwapInPass minConfs x pass).2) :
    ∃ m, (driveSwapInPass minConfs x pass).1.settled d.outpoint.txid = some m := by
  obtain ⟨before, behind, hpending, hd⟩ := mem_driveSwapInPass_answer hswap rfl h
  obtain ⟨m, hm⟩ := driveOneSwapIn_drive.settled_of_delivered hd
  refine ⟨m, ?_⟩
  unfold driveSwapInPass
  dsimp only
  rw [hpending, run_append, run_cons]
  exact run_driveOneSwapIn_keeps hm

theorem claim_mem_driveSwapInPass {d}
    (hroom : cltvHeadroomOk swap.deposit.cltv pass.tip = true) (hreads : (pass.answers swap.swapId).ReadsOk)
    (hfind : findConfirmedDeposit pass.index.outputs swap.spk pass.tip minConfs = some d)
    (hm : x.settled d.outpoint.txid = some m) (hreach : (pass.answers swap.swapId).settle.Reaches m)
    (hup : (driveSwapInPass minConfs x pass).1.down = false) :
    ∃ n ok, Action.claim swap.swapId d n ok ∈ (driveSwapInPass minConfs x pass).2 := by
  obtain ⟨before, behind, hpending⟩ := List.append_of_mem hswap
  have hend : (run (driveOneSwapIn minConfs pass) { x with down := false } x.registry.pending).down = false := hup
  rw [hpending, run_append] at hend
  set y := run (driveOneSwapIn minConfs pass) { x with down := false } before with hy
  have hyup : y.down = false := by
    by_contra hdown
    rw [run_driveOneSwapIn_down (Bool.eq_true_of_not_eq_false hdown)] at hend
    cases hend
  have hym : y.settled d.outpoint.txid = some m := run_driveOneSwapIn_keeps hm
  rcases driveOneSwapIn_settled hyup hroom hreads hfind hym hreach with hdown | ⟨n, ok, hclaim⟩
  · rw [run_cons, run_driveOneSwapIn_down hdown] at hend
    cases hend
  · refine ⟨n, ok, List.mem_flatMap.mpr ⟨(swap, (driveOneSwapIn minConfs pass y swap).2), ?_, hclaim⟩⟩
    exact mem_trace.mpr ⟨before, behind, hpending, rfl⟩

end

section Sample

def sampleSwapIn : OnchainSwapIn := ⟨5, 0, ⟨sampleTerms, 7, .blocks 1000⟩, 9⟩

def sampleIndex : BtcIndex where
  outputs := [⟨⟨21, 0⟩, 250000, sampleSwapIn.spk, some 890⟩]
  unique := by
    intro o ho o' ho' _
    rw [List.mem_singleton.mp ho, List.mem_singleton.mp ho']

def samplePass (tip block : ℕ) : Pass where
  tip := tip
  fee := 1000
  index := sampleIndex
  answers _ := ⟨true, true, ⟨true, false, block, some 250000, true, block, true⟩, false⟩

def sampleWatch : WatchState := ⟨⟨[sampleSwapIn], by decide⟩, fun _ => none, false⟩

def sampleDeposit : ConfirmedDeposit := ⟨⟨21, 0⟩, 250000⟩

theorem samplePass_follows {tip tip' block block'} (h : tip ≤ tip') :
    Follows (samplePass tip block) (samplePass tip' block') :=
  ⟨h, fun _ _ _ _ => Iff.rfl⟩

theorem samplePass_reads {tip block} : ((samplePass tip block).answers sampleSwapIn.swapId).ReadsOk :=
  ⟨rfl, rfl, rfl, rfl, rfl⟩

theorem samplePass_settled : ∀ m ∈ (driveSwapInPass 6 sampleWatch (samplePass 900 500)).1.settled 21,
    (⟨true, false, 510, some 250000, true, 510, true⟩ : SettleAnswers).Reaches m := by
  intro m hm
  have hblock : ((driveSwapInPass 6 sampleWatch (samplePass 900 500)).1.settled 21).map Settlement.block = some 500 := by
    decide +kernel
  rw [Option.mem_def.mp hm] at hblock
  have hm : m.block = 500 := Option.some.inj hblock
  simp [SettleAnswers.Reaches, swapInSettledLookbackBlocks, hm]

theorem samplePass_unclaimed : ∀ e ∈ trace (driveSwapInPass 6) sampleWatch [samplePass 900 500], ∀ d n,
    Action.claim sampleSwapIn.swapId d n true ∉ e.2 := by
  intro e he d n
  have hanswer : (driveSwapInPass 6 sampleWatch (samplePass 900 500)).2 =
      [.delivered 5 sampleDeposit, .claim 5 sampleDeposit 0 false] := by
    decide +kernel
  rw [List.mem_singleton.mp he, hanswer]
  simp

end Sample

theorem settled_claimed_again (minConfs : ℕ) (x : WatchState) (swap : OnchainSwapIn)
    (hswap : swap ∈ x.registry.pending) (p : Pass) (ps : List Pass) (q : Pass) (d : ConfirmedDeposit)
    (hfollows : (p :: ps ++ [q]).IsChain Follows)
    (hdelivered : Action.delivered swap.swapId d ∈ (driveSwapInPass minConfs x p).2)
    (hunclaimed : ∀ e ∈ trace (driveSwapInPass minConfs) x (p :: ps), ∀ d n, Action.claim swap.swapId d n true ∉ e.2)
    (hroom : cltvHeadroomOk swap.deposit.cltv q.tip = true) (hreads : (q.answers swap.swapId).ReadsOk)
    (hreach : ∀ m ∈ (run (driveSwapInPass minConfs) x (p :: ps)).settled d.outpoint.txid,
      (q.answers swap.swapId).settle.Reaches m)
    (hup : (run (driveSwapInPass minConfs) x (p :: ps ++ [q])).down = false) : ∃ n ok, Action.claim swap.swapId d n ok ∈
      (driveSwapInPass minConfs (run (driveSwapInPass minConfs) x (p :: ps)) q).2 := by
  have hlast : ∀ p' ∈ p :: ps, Follows p' q := fun p' hp' =>
    (List.pairwise_append.mp (List.isChain_iff_pairwise.mp hfollows)).2.2 p' hp' q List.mem_cons_self
  have hlive : ∀ p' ∈ p :: ps, swap.deposit.cltv.expired p'.tip = false := fun p' hp' =>
    not_expired_of_headroom hroom (hlast p' hp').1
  have hfind := found_of_mem_driveSwapInPass hswap rfl hdelivered
  obtain ⟨m, hm⟩ := settled_of_delivered_mem hswap hdelivered
  obtain ⟨hunclaimed₁, hunclaimed⟩ := List.forall_mem_cons.mp hunclaimed
  obtain ⟨hlive₁, hlive⟩ := List.forall_mem_cons.mp hlive
  have hmem := mem_driveSwapInPass hswap hlive₁ hunclaimed₁
  -- registration and settlement outlast the passes in between
  obtain ⟨hswap', hm'⟩ : swap ∈ (run (driveSwapInPass minConfs) x (p :: ps)).registry.pending ∧
      (run (driveSwapInPass minConfs) x (p :: ps)).settled d.outpoint.txid = some m :=
    run_invariant (I := fun y => swap ∈ y.registry.pending ∧ y.settled d.outpoint.txid = some m)
      (fun y c hy hc => ⟨mem_driveSwapInPass hy.1 hc.2 hc.1, driveSwapInPass_keeps hy.2⟩) ⟨hmem, hm⟩
      ((along_of_forall_trace hunclaimed).and_forall_mem hlive)
  rw [run_append] at hup
  exact claim_mem_driveSwapInPass hswap' hroom hreads
    (findConfirmedDeposit_stable (hlast p List.mem_cons_self) hfind) hm' (hreach m hm') hup

theorem settled_claimed_again_sample : ∃ n ok, Action.claim sampleSwapIn.swapId sampleDeposit n ok ∈
    (driveSwapInPass 6 (run (driveSwapInPass 6) sampleWatch [samplePass 900 500]) (samplePass 928 510)).2 :=
  settled_claimed_again 6 sampleWatch sampleSwapIn List.mem_cons_self (samplePass 900 500) [] (samplePass 928 510)
    sampleDeposit (.cons_cons (samplePass_follows (by decide)) (.singleton _)) (by decide +kernel)
    samplePass_unclaimed (by decide) samplePass_reads samplePass_settled (by decide +kernel)

theorem settled_not_claimed : sampleSwapIn.deposit.cltv = .blocks 1000 ∧ (samplePass 929 510).tip < 1000 ∧
      Follows (samplePass 900 500) (samplePass 929 510) ∧
      Action.delivered sampleSwapIn.swapId sampleDeposit ∈ (driveSwapInPass 6 sampleWatch (samplePass 900 500)).2 ∧
      (∀ e ∈ trace (driveSwapInPass 6) sampleWatch [samplePass 900 500], ∀ d n,
        Action.claim sampleSwapIn.swapId d n true ∉ e.2) ∧ ((samplePass 929 510).answers sampleSwapIn.swapId).ReadsOk ∧
      (∀ m ∈ (run (driveSwapInPass 6) sampleWatch [samplePass 900 500]).settled 21,
        ((samplePass 929 510).answers sampleSwapIn.swapId).settle.Reaches m) ∧
      (run (driveSwapInPass 6) sampleWatch [samplePass 900 500, samplePass 929 510]).down = false ∧
      (driveSwapInPass 6 (run (driveSwapInPass 6) sampleWatch [samplePass 900 500]) (samplePass 929 510)).2 = [] :=
  ⟨rfl, by decide, samplePass_follows (by decide), by decide +kernel, samplePass_unclaimed, samplePass_reads,
    samplePass_settled, by decide +kernel, by decide +kernel⟩

end Passes

/-- `build_claim_tx_with_refund`: what the hop takes, and what goes back to the seller. -/
def claimOutputs (value fee refundSats : ℕ) : Option (List ℕ) :=
  (claimOutput value fee refundSats).map (· :: if refundSats < minimalNonDust then [] else [refundSats])

structure ClaimFormed (value fee consumed : ℕ) (outputs : List ℕ) : Prop where
  sum : outputs.sum + fee = value
  seller : outputs.tail = if value - consumed < minimalNonDust then [] else [value - consumed]

/-- The fee is taken from what was converted, and only from the whole deposit where nothing goes back. -/
theorem claim_well_formed_iff (x : WatchState) (swap : OnchainSwapIn) (d : ConfirmedDeposit) (fee consumed : ℕ)
    (outcome : SettleOutcome) (ok : Bool) (houtcome : outcome = .delivered consumed ∨ outcome = .alreadySettled consumed)
    (hconsumed : consumed ≤ d.value) (hup : x.down = false) : ((claimDeposit x swap d outcome fee ok).1.down = false ∧
        ∃ outputs, claimOutputs d.value fee (d.value - consumed) = some outputs ∧ ClaimFormed d.value fee consumed outputs) ↔
      fee ≤ if d.value - consumed < minimalNonDust then d.value else consumed := by
  have haction : outcomeAction outcome d.value = .claim (d.value - consumed) := by obtain rfl | rfl := houtcome <;> rfl
  simp only [claimDeposit, haction, claimOutputs, claimOutput]
  constructor
  · rintro ⟨-, outputs, houtputs, -⟩
    split_ifs at houtputs ⊢ <;> first | omega | cases houtputs
  · intro hfee
    split_ifs at hfee ⊢ <;> first | exact ⟨hup, _, rfl, by simp; omega, by simp [*]⟩ | omega

theorem claim_well_formed_partial : ∃ outputs, claimOutputs 250000 1110 100000 = some outputs ∧
    ClaimFormed 250000 1110 150000 outputs :=
  ((claim_well_formed_iff sampleWatch sampleSwapIn sampleDeposit 1110 150000 (.delivered 150000) true (.inl rfl)
    (by decide) rfl).mpr (by decide)).2

theorem claim_panics : (claimDeposit sampleWatch sampleSwapIn sampleDeposit (.delivered 1000) 1110 true).1.down = true ∧
    claimOutputs 250000 1110 (250000 - 1000) = none ∧ claimOutputs 1000 1110 0 = none := by
  decide

end QuidProtocol.SwapIn
