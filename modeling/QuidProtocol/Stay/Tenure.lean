import QuidProtocol.Stay.Principal

/-!
The seconds of the depositors against those of the bank, which the yield is shared by.
The premium of a position over runs of touches.
-/

namespace QuidProtocol.Stay

open Lib Function

def Depositor.tenure (d : Depositor) : Tenure := ⟨d.depositedQuid, d.depositSeconds, d.lastUpdated⟩

def Depository.tenure (bank : Depository) : Tenure := ⟨bank.totalDeposits, bank.totalDepositSeconds, bank.lastUpdated⟩

def SharesBounded (s : State) : Prop :=
  ∀ now, s.bank.lastUpdated ≤ now → ∑ key, ((s.depositors key).depositSeconds +
        (s.depositors key).depositedQuid * (now - (s.depositors key).lastUpdated)) ≤
      s.bank.totalDepositSeconds + s.bank.totalDeposits * (now - s.bank.lastUpdated)

def Forward (s : State) (i : Instruction) : Prop := s.bank.lastUpdated ≤ i.now
  deriving Decidable

/-- A call that counts the seconds of an account once: what moves a balance finds its seconds counted up to now. Nor do
the seconds of the bank saturate. -/
def CountsOnce (s : State) : Instruction → Prop
  | .handleIn _ _ _ _ now => s.bank.tenure.upTo now < 2 ^ 128
  | .outDollars _ signer amount fromPledges now =>
    (s.depositors signer).lastUpdated = now ∨
      ∀ r, (s.bank.age now >>= fun bank => outDollars (s.depositors signer) bank amount.natAbs fromPledges now) = .ok r →
        r.1.depositedQuid = (s.depositors signer).depositedQuid
  | .outPledge _ _ _ _ _ _ => True
  | .outTrade e _ _ signer ticker amount =>
    ∀ t, tradeOf e s signer ticker amount = .ok t →
      t.settled.customer.depositedQuid ≤ (s.depositors signer).depositedQuid
  | .amortise e _ borrower liquidator _ _ =>
    borrower = liquidator ∨ (s.depositors borrower).lastUpdated = e.now ∨ (s.depositors borrower).depositedQuid = 0
  | .handleSweep e cranker ticker visits =>
    s.bank.tenure.upTo e.now < 2 ^ 128 ∧ ((s.depositors cranker).opened → (s.depositors cranker).lastUpdated = e.now ∨
        (visits.foldl (sweepOne e ticker) (Sweep.start e s ticker)).commission = 0)

instance decidableCountsOnce (s : State) (i : Instruction) : Decidable (CountsOnce s i) := by
  apply i.casesOn (motive := fun i => Decidable (CountsOnce s i)) <;> intros <;> dsimp only [CountsOnce] <;> infer_instance

def Tenured (depositors : Pubkey → Depositor) (bank : Depository) : Prop :=
  Backed (Depositor.tenure ∘ depositors) bank.tenure

def State.Tenured (s : State) : Prop := Stay.Tenured s.depositors s.bank

section

variable {e : Env} {after : Actuary} {s s' : State} {d d' : Depositor} {depositors : Pubkey → Depositor}
  {bank bank' : Depository} {o : Outcome} {ticker : Ticker} {prices : List ℕ} {now : ℕ}

theorem Tenured.sharesBounded (h : Tenured s.depositors s.bank) : SharesBounded s := by
  intro now hnow
  exact Backed.upTo_le h hnow

theorem Tenured.replace (h : Tenured depositors bank) (hnow : bank.lastUpdated ≤ now) (key bank')
    (hclock : bank'.lastUpdated = now) (hsince : d.lastUpdated ≤ now)
    (hbalance : d.depositedQuid + bank.totalDeposits ≤ bank'.totalDeposits + (depositors key).depositedQuid)
    (hseconds : d.tenure.upTo now + bank.tenure.upTo now ≤
      bank'.totalDepositSeconds + (depositors key).tenure.upTo now) : Tenured (update depositors key d) bank' := by
  obtain rfl := hclock
  unfold Tenured
  rw [Function.comp_update]
  exact Backed.replace h key d.tenure bank'.tenure hnow hsince hbalance hseconds

theorem upTo_now (h : d.lastUpdated = now) : d.tenure.upTo now = d.depositSeconds := by
  rw [← h]
  exact Tenure.upTo_since _ _ _

theorem bankUpTo_now (h : bank.lastUpdated = now) : bank.tenure.upTo now = bank.totalDepositSeconds := by
  rw [← h]
  exact Tenure.upTo_since _ _ _

theorem Tenured.stamp (h : Tenured depositors bank) (hnow : bank.lastUpdated ≤ now) (key bank')
    (hclock : bank'.lastUpdated = now) (hstamp : d.lastUpdated = now)
    (hbalance : d.depositedQuid + bank.totalDeposits ≤ bank'.totalDeposits + (depositors key).depositedQuid)
    (hseconds : d.depositSeconds + bank.tenure.upTo now ≤
      bank'.totalDepositSeconds + (depositors key).tenure.upTo now) : Tenured (update depositors key d) bank' := by
  apply h.replace hnow key bank' hclock hstamp.le hbalance
  rwa [upTo_now hstamp]

theorem sat_le (n : ℕ) : sat n ≤ n := min_le_left _ _

theorem sat128_le (n : ℕ) : sat128 n ≤ n := min_le_left _ _

theorem sat128_of_lt {n} (h : n < 2 ^ 128) : sat128 n = n := by
  unfold sat128
  omega

theorem depositorAge_seconds (h : d.age now = .ok d') : d'.depositSeconds = d.tenure.upTo now := by
  rw [depositorAge_eq h, Nat.mul_comm]
  rfl

theorem bankAge_counts (h : bank.age now = .ok bank') :
    bank'.lastUpdated = now ∧ bank'.totalDepositSeconds = bank.tenure.upTo now ∧
      bank'.totalDeposits = bank.totalDeposits := by
  rw [bankAge_eq h, Nat.mul_comm]
  exact ⟨rfl, rfl, rfl⟩

theorem accrued_le_counted {a b : Tenure} (h : b.upTo now < 2 ^ 128) :
    sat128 (a.upTo now) + b.upTo now ≤ sat128 (b.upTo now) + a.upTo now := by
  have ha := sat128_le (a.upTo now)
  rw [sat128_of_lt h]
  omega

variable {signer borrower liquidator cranker : Pubkey} {v : Vaults} {paid commission : ℕ} {amount : ℤ}
  {own : Depositor}

theorem handleIn_tenured {amount decimals : ℕ} {ticker : Option Ticker}
    (hs : Tenured s.depositors s.bank) (hnow : s.bank.lastUpdated ≤ now)
    (hfits : WithinYield s (.handleIn signer amount decimals ticker now)) (hcounts : s.bank.tenure.upTo now < 2 ^ 128)
    (h : handleIn s signer amount decimals ticker now = .ok s') : Tenured s'.depositors s'.bank := by
  obtain ⟨customer, credited, rfl, hcredited, ⟨-, rfl⟩ | ⟨t, pledged, -, hpledged, rfl⟩⟩ := handleIn_eq h
  · have htotal := sat_of_lt (hfits credited hcredited)
    have hquid := sat_le ((s.depositors signer).depositedQuid + credited)
    apply hs.stamp hnow signer _ rfl rfl
    · change sat ((s.depositors signer).depositedQuid + credited) + s.bank.totalDeposits ≤
        sat (s.bank.totalDeposits + credited) + (s.depositors signer).depositedQuid
      omega
    · exact accrued_le_counted (a := (s.depositors signer).tenure) hcounts
  · obtain ⟨balances, lastUpdated, rfl, -⟩ := renegeOne_eq hpledged
    apply hs.stamp hnow signer _ rfl rfl
    · exact (Nat.add_comm _ _).le
    · exact accrued_le_counted (a := (s.depositors signer).tenure) hcounts

theorem Tenured.lastUpdated_le (h : Tenured depositors bank) (hnow : bank.lastUpdated ≤ now) (key : Pubkey) :
    (depositors key).lastUpdated ≤ now := le_trans (Backed.since h key) hnow

theorem adjustDepositSeconds_seconds (bank : Depository) {base reduced}
    (hnone : base = 0 ∨ reduced = 0 ∨ d.lastUpdated = now) :
    (adjustDepositSeconds d bank base reduced now).1.depositSeconds + bank.totalDepositSeconds ≤
      (adjustDepositSeconds d bank base reduced now).2.totalDepositSeconds + d.depositSeconds := by
  unfold adjustDepositSeconds
  by_cases htaken : base = 0 ∨ reduced = 0
  · rw [if_pos htaken]
    exact (Nat.add_comm _ _).le
  · have hstamp : now - d.lastUpdated = 0 := by omega
    rw [if_neg htaken, hstamp, Nat.zero_mul]
    dsimp only
    generalize hbefore : sat128 (d.depositSeconds + sat128 0) = before
    have hbefore' : before ≤ d.depositSeconds := by
      rw [← hbefore]
      exact sat128_le _
    generalize hkept : (if before * (base - reduced) < 2 ^ 128 then before * (base - reduced) / base else 0) = kept
    have hkept' : kept ≤ before := by
      rw [← hkept]
      split_ifs
      · apply Nat.div_le_of_le_mul
        rw [Nat.mul_comm]
        exact Nat.mul_le_mul_right _ (Nat.sub_le _ _)
      · exact Nat.zero_le _
    omega

theorem outDollars_tenured {fromPledges} (hs : Tenured s.depositors s.bank) (hnow : s.bank.lastUpdated ≤ now)
    (hcounts : CountsOnce s (.outDollars v signer amount fromPledges now))
    (h : handleOutDollars s v signer amount fromPledges now = .ok (s', paid)) : Tenured s'.depositors s'.bank := by
  obtain ⟨bank, customer, bank', value, hbank, hout, rfl⟩ := handleOutDollars_eq h
  obtain ⟨hclock, hseconds, htotal⟩ := bankAge_counts hbank
  obtain ⟨balances, ⟨rfl, rfl⟩ | ⟨asked, withdrawn, hdraw⟩⟩ := outDollars_eq hout
  · apply hs.replace (d := { s.depositors signer with balances }) hnow signer _ hclock
      (hs.lastUpdated_le hnow signer)
    · exact (Nat.add_comm _ _).trans_le (htotal.symm ▸ le_rfl)
    · exact (Nat.add_comm _ _).trans_le (hseconds.symm ▸ le_rfl)
  · obtain ⟨aged, unmet, hcustomer, hpay⟩ := withdrawDollars_eq hdraw
    obtain ⟨bank₁, hle, htotal₁, hseconds₁, hclock₁, hbank', hcustomer'⟩ := payFromBalance_eq hpay
    have hage := depositorAge_eq hcustomer
    have hown := depositorAge_seconds hcustomer
    have hquid : aged.depositedQuid = (s.depositors signer).depositedQuid := by rw [hage]
    have hstamp : aged.lastUpdated = (s.depositors signer).lastUpdated := by rw [hage]
    have hnone : aged.depositedQuid = 0 ∨ withdrawn = 0 ∨ aged.lastUpdated = now := by
      obtain hcounts | hcounts := hcounts
      · exact .inr (.inr (hstamp.trans hcounts))
      · have hsame := hcounts (customer, bank', value) (bind_eq_ok.mpr ⟨bank, hbank, hout⟩)
        rw [hcustomer', hquid] at hsame
        dsimp only at hsame
        omega
    have hadjust := adjustDepositSeconds_seconds bank₁ hnone
    obtain ⟨seconds, since, total, hkept⟩ := adjustDepositSeconds_keeps aged bank₁ aged.depositedQuid withdrawn now
    rw [hkept] at hbank' hcustomer' hadjust
    have htotal' : (bank.deferRedemption unmet).totalDeposits = s.bank.totalDeposits := htotal
    rw [htotal'] at hle htotal₁
    apply hs.stamp hnow signer
    · rw [hbank']
      exact hclock₁.trans hclock
    · rw [hcustomer']
    · rw [hbank', hcustomer']
      dsimp only
      omega
    · change aged.depositSeconds = (s.depositors signer).tenure.upTo now at hown
      rw [hseconds₁.trans hseconds, hown] at hadjust
      rw [hbank', hcustomer']
      exact hadjust

theorem outPledge_tenured {price} (hs : Tenured s.depositors s.bank) (hnow : s.bank.lastUpdated ≤ now)
    (h : handleOutPledge s v signer ticker amount price now = .ok (s', paid)) : Tenured s'.depositors s'.bank := by
  obtain ⟨bank, customer, hbank, hrenege, rfl⟩ := handleOutPledge_eq h
  obtain ⟨balances, lastUpdated, rfl, hstamp⟩ := renegeOne_eq hrenege
  obtain ⟨hclock, hseconds, htotal⟩ := bankAge_counts hbank
  have hbalance : (s.depositors signer).depositedQuid + s.bank.totalDeposits ≤
      bank.totalDeposits + (s.depositors signer).depositedQuid := by omega
  obtain rfl | rfl := hstamp
  · apply hs.replace (d := { s.depositors signer with balances }) hnow signer _ hclock
      (hs.lastUpdated_le hnow signer) hbalance
    rw [hseconds]
    exact (Nat.add_comm _ _).le
  · -- the seconds since the clock are lost, as it is moved without counting them
    apply hs.stamp (d := { s.depositors signer with balances, lastUpdated }) hnow signer _ hclock rfl hbalance
    have hlost : (s.depositors signer).depositSeconds ≤ (s.depositors signer).tenure.upTo lastUpdated :=
      Nat.le_add_right _ _
    dsimp only
    omega

theorem dispatchTrade_seconds {before preDq fee} (hsince : d.lastUpdated ≤ now) (hquid : d.depositedQuid ≤ preDq)
    (hraise : (dispatchTrade o d before preDq fee now).customer.depositedQuid ≤ preDq) :
    (dispatchTrade o d before preDq fee now).customer.lastUpdated ≤ now ∧
      (dispatchTrade o d before preDq fee now).customer.tenure.upTo now ≤
        Tenure.upTo ⟨preDq, d.depositSeconds, d.lastUpdated⟩ now := by
  have hcounted (balance : ℕ) (h : balance ≤ preDq) :
      sat128 (d.depositSeconds + sat128 ((now - d.lastUpdated) * balance)) ≤
        d.depositSeconds + preDq * (now - d.lastUpdated) := by
    have hinner := sat128_le ((now - d.lastUpdated) * balance)
    have houter := sat128_le (d.depositSeconds + sat128 ((now - d.lastUpdated) * balance))
    have hbound := Nat.mul_le_mul_left (now - d.lastUpdated) h
    rw [Nat.mul_comm preDq]
    omega
  have huncounted : d.tenure.upTo now ≤ Tenure.upTo ⟨preDq, d.depositSeconds, d.lastUpdated⟩ now :=
    Tenure.upTo_le (a := d.tenure) (b := ⟨preDq, d.depositSeconds, d.lastUpdated⟩) hquid le_rfl rfl now
  unfold dispatchTrade at hraise ⊢
  dsimp only at hraise ⊢
  split_ifs at hraise ⊢
  · exact ⟨hsince, huncounted⟩
  · exact ⟨le_rfl, (upTo_now rfl).trans_le (hcounted _ hraise)⟩
  · exact ⟨le_rfl, (upTo_now rfl).trans_le (hcounted _ le_rfl)⟩
  · exact ⟨hsince, huncounted⟩

theorem bookPool_keeps (bank gain) : (bookPool bank gain).totalDepositSeconds = bank.totalDepositSeconds ∧
      (bookPool bank gain).lastUpdated = bank.lastUpdated := by
  unfold bookPool
  dsimp only
  split_ifs
  all_goals exact ⟨rfl, rfl⟩

theorem outTrade_tenured (hs : Tenured s.depositors s.bank)
    (hnow : s.bank.lastUpdated ≤ e.now) (hwithin : WithinYield s (.outTrade e after v signer ticker amount))
    (hcounts : CountsOnce s (.outTrade e after v signer ticker amount))
    (h : handleOutTrade e after s v signer ticker amount = .ok (s', paid)) : Tenured s'.depositors s'.bank := by
  obtain ⟨t, ht, -, rfl⟩ := handleOutTrade_eq h
  have htrade := tradeOf_eq ht
  have hraise := hcounts t ht
  obtain ⟨hclock, hseconds, hdeposits⟩ := bankAge_counts htrade.bank
  obtain ⟨totalDrawn, hdesk⟩ := repo_bank htrade.traded
  obtain ⟨hquid, drawn, balances, hd⟩ := repo_account htrade.traded
  obtain ⟨funded, hfunded⟩ := fundPosition_account e.actuary e.price (s.depositors signer) (s.risks ticker) ticker
  rw [htrade.funding] at hfunded
  change t.funded = _ at hfunded
  rw [hfunded] at hd hquid
  have hsince : t.traded.lastUpdated = (s.depositors signer).lastUpdated := by rw [hd]
  have hown : t.traded.depositSeconds = (s.depositors signer).depositSeconds := by rw [hd]
  have hle : t.traded.depositedQuid ≤ (s.depositors signer).depositedQuid := by rw [hd]; exact hquid
  have hdispatch := dispatchTrade_seconds (o := t.outcome) (hsince.trans_le (hs.lastUpdated_le hnow signer)) hle
    (htrade.settled ▸ hraise)
  rw [← htrade.settled, hown, hsince] at hdispatch
  have hpool := bookPool_keeps t.outcome.desk.bank t.settled.gain
  have htotal := bookPool_totalDeposits t.outcome.desk.bank t.settled.gain
    (by rw [hdesk, bankAge_eq htrade.bank]; exact hwithin t ht)
  rw [hdesk] at hpool htotal
  apply hs.replace hnow signer
  · rw [hdesk]
    exact hpool.2.trans hclock
  · exact hdispatch.1
  · rw [hdesk]
    exact (Nat.add_comm _ _).trans_le (Nat.add_le_add (htotal.trans hdeposits).ge hraise)
  · rw [hdesk]
    exact (Nat.add_comm _ _).trans_le (Nat.add_le_add (hpool.1.trans hseconds).ge hdispatch.2)

theorem creditLiquidator_counts (h : creditLiquidator d commission now = .ok d') :
    d'.lastUpdated = now ∧ d'.depositSeconds ≤ d.tenure.upTo now := by
  obtain ⟨touched, htouch, n, hn, h⟩ := of_bind₂ h
  cases h
  refine ⟨rfl, ?_⟩
  unfold Depositor.touch at htouch
  split_ifs at htouch
  · exact (depositorAge_seconds htouch).le
  · cases htouch
    exact Nat.le_add_right _ _

theorem Amortised.counted {recovered customer liq} (ham : Amortised e s borrower liquidator s' o recovered customer liq)
    (hcounts : (s.depositors borrower).lastUpdated = e.now ∨ (s.depositors borrower).depositedQuid = 0) :
    customer.tenure.upTo e.now = (s.depositors borrower).tenure.upTo e.now := by
  obtain ⟨aged, hage, hownSeconds, hownClock⟩ := ham.aged
  rw [← depositorAge_seconds hage, ← hownSeconds]
  obtain hstamp | hnone := hcounts
  · apply upTo_now
    rw [hownClock, depositorAge_eq hage]
    exact hstamp
  · have hmoved := ham.moved
    have hposted := ham.posted
    have hquidLe := ham.quid_le
    have hquid := ham.quid
    have hrecovered := ham.recovered_neg (by omega)
    have hempty : customer.depositedQuid = 0 := by omega
    change customer.depositSeconds + customer.depositedQuid * _ = _
    rw [hempty, Nat.zero_mul, Nat.add_zero]

theorem amortise_tenured (hs : Tenured s.depositors s.bank) (hnow : s.bank.lastUpdated ≤ e.now)
    (hwithin : WithinYield s (.amortise e after borrower liquidator ticker prices))
    (hcounts : CountsOnce s (.amortise e after borrower liquidator ticker prices))
    (h : amortise e after s borrower liquidator ticker prices = .ok s') : Tenured s'.depositors s'.bank := by
  obtain ⟨traded, o, customer, liq, -, ham⟩ := amortise_within hwithin h
  obtain ⟨bank, hbank, hbankSeconds, hbankClock⟩ := ham.bank
  obtain ⟨hclock, hseconds, -⟩ := bankAge_counts hbank
  obtain ⟨hstamp, hcounted⟩ := creditLiquidator_counts ham.credit
  have hcredit := (creditLiquidator_eq ham.credit).1
  have hdeposits := ham.deposits
  have hquid := ham.quid
  have hquidLe := ham.quid_le
  rw [ham.depositors]
  by_cases hself : borrower = liquidator
  · obtain rfl := hself
    rw [update_idem]
    apply hs.stamp hnow borrower _ (hbankClock.trans hclock) hstamp
    · omega
    · omega
  · -- the borrower first, with what is recovered, and then the liquidator with the commission
    have hown := ham.counted (hcounts.resolve_left hself)
    have hsince : customer.lastUpdated = (s.depositors borrower).lastUpdated := by
      obtain ⟨aged, hage, -, hownClock⟩ := ham.aged
      rw [hownClock, depositorAge_eq hage]
    let bank₁ := { s'.bank with totalDeposits := s.bank.totalDeposits + (salvage traded o.delta prices e.now).1 }
    have hfirst : Tenured (update s.depositors borrower customer) bank₁ := by
      apply hs.replace hnow borrower bank₁ (hbankClock.trans hclock)
        (hsince.trans_le (hs.lastUpdated_le hnow borrower))
      all_goals
        dsimp only [bank₁]
        omega
    have hpool : bank₁.tenure.upTo e.now = s'.bank.totalDepositSeconds := bankUpTo_now (hbankClock.trans hclock)
    apply hfirst.stamp (hbankClock.trans hclock).le liquidator s'.bank (hbankClock.trans hclock) hstamp
    · rw [update_of_ne (Ne.symm hself)]
      dsimp only [bank₁]
      omega
    · rw [update_of_ne (Ne.symm hself)]
      omega

theorem sweepOne_tenure (e ticker x v) : (sweepOne e ticker x v).bank.tenure = x.bank.tenure := by
  have hleaves := sweepOne_leaves e ticker x v
  unfold Depository.tenure
  rw [hleaves.totalDeposits, hleaves.totalDepositSeconds, hleaves.lastUpdated]

theorem sweepOne_tenured {x} (v : Visit) (h : Tenured (update x.depositors cranker own) x.bank) :
    Tenured (update (sweepOne e ticker x v).depositors cranker own) (sweepOne e ticker x v).bank := by
  have hleaves := sweepOne_leaves e ticker x v
  obtain ⟨d, hdepositors, hquid, hown, hsince⟩ := hleaves.account
  rw [hdepositors]
  by_cases hkey : v.key = cranker
  · rw [hkey, update_idem]
    unfold Tenured
    rw [sweepOne_tenure]
    exact h
  · have hother : update x.depositors cranker own v.key = x.depositors v.key :=
      update_of_ne hkey _ _
    rw [update_comm hkey]
    apply h.replace le_rfl v.key _ hleaves.lastUpdated
    · rw [hsince, ← hother]
      exact Backed.since h v.key
    · rw [hother, hleaves.totalDeposits]
      omega
    · have hless : d.tenure.upTo x.bank.lastUpdated ≤ (x.depositors v.key).tenure.upTo x.bank.lastUpdated :=
        Tenure.upTo_le hquid hown.le hsince _
      rw [hother, hleaves.totalDepositSeconds, bankUpTo_now rfl]
      omega

theorem sweep_tenured {x} (visits : List Visit) (h : Tenured (update x.depositors cranker own) x.bank) :
    Tenured (update (visits.foldl (sweepOne e ticker) x).depositors cranker own)
        (visits.foldl (sweepOne e ticker) x).bank ∧
      (visits.foldl (sweepOne e ticker) x).bank.tenure = x.bank.tenure := by
  induction visits generalizing x with
  | nil => exact ⟨h, rfl⟩
  | cons v visits ih =>
    obtain ⟨hrest, hsame⟩ := ih (sweepOne_tenured v h)
    exact ⟨hrest, hsame.trans (sweepOne_tenure e ticker x v)⟩

theorem start_tenure (hfits : s.bank.tenure.upTo e.now < 2 ^ 128) :
    (Sweep.start e s ticker).bank.tenure = s.bank.tenure.settled e.now := by
  change Tenure.mk _ (sat128 (s.bank.tenure.upTo e.now)) _ = _
  rw [sat128_of_lt hfits]
  rfl

theorem start_tenured (ticker : Ticker) (hs : Tenured s.depositors s.bank) (hnow : s.bank.lastUpdated ≤ e.now)
    (hfits : s.bank.tenure.upTo e.now < 2 ^ 128) (cranker : Pubkey) :
    Tenured (update (Sweep.start e s ticker).depositors cranker (s.depositors cranker))
      (Sweep.start e s ticker).bank := by
  unfold Tenured
  rw [start_tenure hfits]
  change Backed (Depositor.tenure ∘ update s.depositors cranker (s.depositors cranker)) _
  rw [update_eq_self]
  exact Backed.settled hs hnow

theorem commission_counts (hsinceNow : d.lastUpdated ≤ now)
    (hquid : own.depositedQuid = sat (d.depositedQuid + commission)) (hown : own.depositSeconds = d.depositSeconds)
    (hsince : own.lastUpdated = if d.opened then d.lastUpdated else now)
    (hcommission : d.opened → d.lastUpdated = now ∨ commission = 0) :
    own.lastUpdated ≤ now ∧ own.tenure.upTo now ≤ d.tenure.upTo now := by
  have hstamped (hstamp : own.lastUpdated = now) : own.tenure.upTo now ≤ d.tenure.upTo now := by
    rw [upTo_now hstamp, hown]
    exact Nat.le_add_right _ _
  by_cases hopen : d.opened
  · rw [if_pos hopen] at hsince
    refine ⟨hsince.trans_le hsinceNow, ?_⟩
    obtain hstamp | hnone := hcommission hopen
    · exact hstamped (hsince.trans hstamp)
    · rw [hnone, Nat.add_zero] at hquid
      exact Tenure.upTo_le (hquid.trans_le (sat_le _)) hown.le hsince _
  · rw [if_neg hopen] at hsince
    exact ⟨hsince.le, hstamped hsince⟩

theorem handleSweep_tenured {visits} (hs : Tenured s.depositors s.bank)
    (hnow : s.bank.lastUpdated ≤ e.now) (hwithin : WithinYield s (.handleSweep e cranker ticker visits))
    (hcounts : CountsOnce s (.handleSweep e cranker ticker visits)) :
    Tenured (handleSweep e s cranker ticker visits).depositors (handleSweep e s cranker ticker visits).bank := by
  obtain ⟨hfits, hcommission⟩ := hcounts
  obtain ⟨hafter, hbank⟩ := sweep_tenured visits (start_tenured ticker hs hnow hfits cranker)
  rw [start_tenure hfits] at hbank
  have hwithin' : s.bank.totalDeposits +
    (visits.foldl (sweepOne e ticker) (Sweep.start e s ticker)).commission < 2 ^ 64 := hwithin
  generalize hx : visits.foldl (sweepOne e ticker) (Sweep.start e s ticker) = x at hafter hbank hwithin' hcommission
  obtain ⟨hfinal, own, hdepositors, hquid, hown, hsince⟩ := handleSweep_eq cranker hx
  have hclock : x.bank.lastUpdated = e.now := congrArg Tenure.since hbank
  have hdeposits : x.bank.totalDeposits = s.bank.totalDeposits := congrArg Tenure.balance hbank
  obtain ⟨hsinceNow, hcounted⟩ := commission_counts (hs.lastUpdated_le hnow cranker) hquid hown hsince hcommission
  rw [hfinal, hdepositors, ← update_idem (s.depositors cranker) own x.depositors]
  apply hafter.replace hclock.le cranker { x.bank with totalDeposits := sat (x.bank.totalDeposits + x.commission) }
    hclock hsinceNow
  · have hcredit := sat_le ((s.depositors cranker).depositedQuid + x.commission)
    rw [update_self, hdeposits, sat_of_lt hwithin']
    dsimp only
    omega
  · rw [update_self, bankUpTo_now hclock]
    dsimp only
    omega

theorem exec_tenured {i} (hs : Tenured s.depositors s.bank) (hnow : Forward s i)
    (hwithin : WithinYield s i) (hcounts : CountsOnce s i) (h : exec s i = .ok s') : Tenured s'.depositors s'.bank := by
  cases i with
  | handleIn => exact handleIn_tenured hs hnow hwithin hcounts h
  | outDollars =>
    obtain ⟨paid, h⟩ := bind_fst_eq_ok.mp h
    exact outDollars_tenured hs hnow hcounts h
  | outPledge =>
    obtain ⟨paid, h⟩ := bind_fst_eq_ok.mp h
    exact outPledge_tenured hs hnow h
  | outTrade =>
    obtain ⟨paid, h⟩ := bind_fst_eq_ok.mp h
    exact outTrade_tenured hs hnow hwithin hcounts h
  | amortise => exact amortise_tenured hs hnow hwithin hcounts h
  | handleSweep =>
    cases h
    exact handleSweep_tenured hs hnow hwithin hcounts

theorem tenured_empty : State.empty.Tenured := by
  refine ⟨fun key => le_rfl, ?_, ?_⟩
  all_goals exact (Finset.sum_eq_zero fun _ _ => rfl).le

/-- Where every call counts seconds once, those of all accounts are at most those of the bank. -/
theorem shares_bounded (run : List Instruction) (hforward : EveryStep exec Forward State.empty run)
    (hwithin : EveryStep exec WithinYield State.empty run) (hcounts : EveryStep exec CountsOnce State.empty run) :
    EveryState exec SharesBounded State.empty run := by
  have hsteps := hforward.and (hwithin.and hcounts)
  apply everyState_of_invariant _ _ tenured_empty hsteps
  · intro s hs
    exact Tenured.sharesBounded hs
  · intro s i s' hs hi h
    exact exec_tenured hs hi.1 hi.2.1 hi.2.2 h

end

def sameSecondRun : List Instruction :=
  depositAndBuy steadyActuary ++
    [.handleIn 1 (100 * 10 ^ 6) 6 none 400, .outDollars fullVault 1 (-50 * 10 ^ 6) none 400]

theorem shares_bounded_same_second : ∃ s', runAll exec State.empty sameSecondRun = .ok s' ∧
    s'.bank.totalDeposits = 1050 * 10 ^ 6 ∧ EveryState exec SharesBounded State.empty sameSecondRun := by
  refine exists_ok (fun s' => s'.bank.totalDeposits = 1050 * 10 ^ 6) (by decide +kernel) ?_
  intro s' _ hdeposits
  have hforward : EveryStep exec Forward State.empty sameSecondRun := by decide +kernel
  have hwithin : EveryStep exec WithinYield State.empty sameSecondRun := by decide +kernel
  exact ⟨hdeposits, shares_bounded sameSecondRun hforward hwithin (by decide +kernel)⟩

def depositAndWithdraw : List Instruction :=
  [.handleIn 1 (1000 * 10 ^ 6) 6 none 100, .outDollars fullVault 1 (-500 * 10 ^ 6) none 200]

theorem withdrawal_counts_twice : ∃ s', runAll exec State.empty depositAndWithdraw = .ok s' ∧
    EveryStep exec Forward State.empty depositAndWithdraw ∧ s'.bank.totalDepositSeconds = 0 ∧
    (s'.depositors 1).depositSeconds = 10 ^ 11 ∧ ¬ SharesBounded s' := by
  refine exists_ok (fun s' => s'.bank.lastUpdated = 200 ∧ s'.bank.totalDepositSeconds = 0 ∧
    (s'.depositors 1).depositSeconds = 10 ^ 11) (by decide +kernel) ?_
  rintro s' - ⟨hclock, hbank, hown⟩
  refine ⟨by decide +kernel, hbank, hown, fun hbounded => ?_⟩
  have hall := hbounded 200 hclock.le
  have hone := Finset.single_le_sum (f := fun key => (s'.depositors key).depositSeconds +
    (s'.depositors key).depositedQuid * (200 - (s'.depositors key).lastUpdated)) (fun _ _ => Nat.zero_le _)
    (Finset.mem_univ 1)
  rw [hbank, hclock] at hall
  omega

def yearBps : ℕ := secondsPerYear * bps

def positionRate (e : Env) (k : Desk) (amount : ℤ) : ℤ :=
  let q := quote e k amount
  satI64 ((e.actuary.lossProfile (if k.pod.exposure < 0 then -asI64 q.oldValue else asI64 q.oldValue)
      e.actuary.netExposure).premiumBps +
    e.actuary.hazardRateBps (distanceBps q.oldValue q.mark q.collarAmt)
      (e.actuary.collarBps (leveragePct q.oldValue k.pod.pledged)) amount k.bank.totalDeposits k.bank.maxLiability)

/-- A touch of the position, with the premium that it and those before it have charged. -/
def touch (x : Stock × ℕ) (c : Call) : Res (Stock × ℕ) :=
  (c.outcome x.1).map fun o => (o.desk.pod, x.2 + o.charged)

def unbilled (p : ℕ) (x : Stock × ℕ) (c : Call) : ℕ :=
  c.env.actuary.premiumIndex - x.1.premiumCheckpoint + p * (c.env.now - x.1.updated)

def Covered (value p : ℕ) (x : Stock × ℕ) (c : Call) : Prop := value * unbilled p x c < (c.pledged + 1) * yearBps
  deriving Decidable

/-- The exposure has one value and the position one rate; the index and the time do not go back, and between two touches
only `repo` stamps the position. -/
structure Steady (value p : ℕ) (x : Stock × ℕ) (c : Call) : Prop where
  oldValue : (c.quote x.1).oldValue = value
  rate : (positionRate c.env (c.desk x.1) c.amount).toNat = p
  stamped : c.updated = x.1.updated
  later : x.1.updated ≤ c.env.now
  grown : x.1.premiumCheckpoint ≤ c.env.actuary.premiumIndex

structure Meters (value p : ℕ) (x : Stock × ℕ) (c : Call) : Prop where
  crank : c.amount = 0
  uncalled : ¬ marginCalled (c.desk x.1) (c.quote x.1) 0
  inside : (c.quote x.1).oldValue = 0 ∨ WithinEdges x.1 (c.quote x.1)
  fits : value * unbilled p x c < 2 ^ 64 * yearBps
  covered : Covered value p x c ∨ c.env.actuary.premiumIndex = x.1.premiumCheckpoint ∧ value * p ≤ yearBps

section

variable {e : Env} {k : Desk} {o : Outcome} {value p n t i : ℕ} {x x' : Stock × ℕ} {c : Call}

def Stamped (k : Desk) (time : ℕ) (k' : Desk) : Prop :=
  k'.pod.updated = time ∧ k'.pod.premiumCheckpoint = k.pod.premiumCheckpoint

/-- A crank that finds a long position inside of its edges is refused, so that the one that passes has marked a short. -/
theorem crank_stamps (hcall : ¬ marginCalled k (quote e k 0) 0)
    (hinside : (quote e k 0).oldValue = 0 ∨ WithinEdges k.pod (quote e k 0)) (h : repoPod e k 0 = .ok o) :
    o.charged = (quote e k 0).accrued ∧
      Stamped (checkpointed e k) (min (k.pod.updated + (quote e k 0).billedSecs) e.now) o.desk := by
  have hreducing := not_reducing e k
  have hvalue : (quote e k 0).oldValue = unitsValue k.pod.exposure.natAbs e.price := rfl
  unfold repoPod at h
  dsimp only at h
  rw [if_neg (by exact hcall)] at h
  obtain ⟨o', ho, rfl⟩ := map_eq_ok.mp h
  refine ⟨rfl, ?_⟩
  generalize quote e k 0 = q at *
  split_ifs at ho with hside
  · have hlong : 0 < k.pod.exposure := by simpa using hside
    rw [WithinEdges, if_pos hlong] at hinside
    unfold repoLong at ho
    dsimp only at ho
    rw [if_neg (by omega), if_neg (by omega)] at ho
    exact absurd rfl (of_require ho).1
  · have hshort : ¬ 0 < k.pod.exposure := fun hpos => hside (.inl hpos)
    rw [WithinEdges, if_neg hshort] at hinside
    unfold repoShort at ho
    dsimp only at ho
    rw [← hvalue, if_neg (by omega), if_pos (by omega), if_neg (by omega), if_neg (by omega)] at ho
    cases ho
    refine ⟨rfl, ?_⟩
    change (clearBreach _ q q.oldValue).pod.premiumCheckpoint = _
    unfold clearBreach
    split_ifs
    all_goals rfl

section Due

variable {rate : ℤ} {dt base pledged s : ℕ} (hs : base + rate.toNat * dt = s) (hfits : value * s < 2 ^ 64 * yearBps)

include hs hfits

theorem premiumDue_eq : premiumDue value rate dt base pledged = if value * s / yearBps ≤ pledged
    then (value * s / yearBps, dt) else (pledged, min (pledged * dt / max (value * s / yearBps) 1) dt) := by
  obtain rfl | hpos := Nat.eq_zero_or_pos value
  · simp [premiumDue]
  have hyear : yearBps = 315360000000 := rfl
  have hsum : s ≤ value * s := Nat.le_mul_of_pos_left _ hpos
  have hsmall : value * s / yearBps < 2 ^ 64 := (Nat.div_lt_iff_lt_mul (by omega)).mpr hfits
  unfold premiumDue
  rw [sat128_of_lt (n := rate.toNat * dt) (by omega), hs, sat128_of_lt (n := s) (by omega)]
  dsimp only
  rw [sat128_of_lt (by omega), ← yearBps, sat_of_lt hsmall]
  by_cases hnone : s = 0
  · simp [hnone]
  · rw [if_neg (by omega)]

/-- What is charged pays for the seconds that are billed, up to one unit. -/
theorem premiumDue_near {due} (hdue : premiumDue value rate dt base pledged = due)
    (h : value * s < (pledged + 1) * yearBps ∨ base = 0 ∧ value * rate.toNat ≤ yearBps) :
    due.2 ≤ dt ∧ (value * s < (pledged + 1) * yearBps → due.2 = dt) ∧
      due.1 * yearBps ≤ value * (base + rate.toNat * due.2) + yearBps ∧
      value * (base + rate.toNat * due.2) ≤ (due.1 + 1) * yearBps := by
  have hpos : 0 < yearBps := by decide
  have hdiv := Nat.div_mul_le_self (value * s) yearBps
  have hrest := Nat.lt_div_mul_add (a := value * s) hpos
  rw [premiumDue_eq hs hfits] at hdue
  generalize value * s / yearBps = accrued at *
  split_ifs at hdue with hpaid
  · obtain rfl := hdue
    refine ⟨le_rfl, fun _ => rfl, ?_, ?_⟩
    all_goals
      rw [hs]
      linarith
  · have hshort : (pledged + 1) * yearBps ≤ accrued * yearBps := Nat.mul_le_mul_right _ (by omega)
    obtain ⟨rfl, hsecond⟩ := h.resolve_left (by omega)
    have haccrued : 0 < accrued := by omega
    have hle : pledged * dt / accrued ≤ dt := Nat.div_le_of_le_mul (Nat.mul_le_mul_right _ (by omega))
    have hbilled := Nat.div_mul_le_self (pledged * dt) accrued
    have hunbilled := Nat.lt_div_mul_add (a := pledged * dt) haccrued
    rw [max_eq_left haccrued, min_eq_left hle] at hdue
    generalize pledged * dt / accrued = billed at *
    obtain rfl := hdue
    rw [Nat.zero_add] at hs ⊢
    subst hs
    dsimp only
    refine ⟨hle, fun hcovered => absurd hcovered (by omega), ?_, ?_⟩
    · apply Nat.le_of_mul_le_mul_left _ haccrued
      nlinarith
    · apply Nat.le_of_mul_le_mul_left _ haccrued
      calc accrued * (value * (rate.toNat * billed)) = value * rate.toNat * (billed * accrued) := by ring
        _ ≤ value * rate.toNat * (pledged * dt) := Nat.mul_le_mul_left _ hbilled
        _ = pledged * (value * (rate.toNat * dt)) := by ring
        _ ≤ pledged * (accrued * yearBps + yearBps) := Nat.mul_le_mul_left _ hrest.le
        _ ≤ accrued * ((pledged + 1) * yearBps) := by nlinarith

end Due

/-- What has been charged in `n` touches, against what has run on the two clocks since `t` and the index `i`. -/
structure Near (value p t i n : ℕ) (x : Stock × ℕ) : Prop where
  opened : t ≤ x.1.updated
  indexed : i ≤ x.1.premiumCheckpoint
  charged : x.2 * yearBps ≤ value * (x.1.premiumCheckpoint - i + p * (x.1.updated - t)) + n * yearBps
  owed : value * (x.1.premiumCheckpoint - i + p * (x.1.updated - t)) ≤ (x.2 + n) * yearBps

theorem near_touch (hx : Near value p t i n x) (hsteady : Steady value p x c) (hmeters : Meters value p x c)
    (h : touch x c = .ok x') : Near value p t i (n + 1) x' ∧ x'.1.premiumCheckpoint = c.env.actuary.premiumIndex ∧
      (Covered value p x c → x'.1.updated = c.env.now) := by
  obtain ⟨o, ho, rfl⟩ := map_eq_ok.mp h
  obtain ⟨hvalue, hrate, hstamp, hlater, hgrown⟩ := hsteady
  obtain ⟨hcrank, hcalled, hinside, hfits, hcovered⟩ := hmeters
  unfold Call.outcome at ho
  unfold Call.quote at hvalue hcalled hinside
  rw [hcrank] at ho hvalue hrate hcalled hinside
  obtain ⟨hcharged, htime, hindex⟩ := crank_stamps hcalled hinside ho
  have hdue : premiumDue value (positionRate c.env (c.desk x.1) 0) (c.env.now - x.1.updated)
      (c.env.actuary.premiumIndex - x.1.premiumCheckpoint) c.pledged =
      (o.charged, (quote c.env (c.desk x.1) 0).billedSecs) := by
    rw [← hvalue, ← hstamp, hcharged]
    rfl
  generalize (quote c.env (c.desk x.1) 0).billedSecs = billed at *
  obtain ⟨hle, hall, hlow, hhigh⟩ := premiumDue_near (by rw [hrate]; rfl) hfits hdue
    (hcovered.imp_right fun h => ⟨Nat.sub_eq_zero_of_le h.1.le, hrate ▸ h.2⟩)
  replace htime : o.desk.pod.updated = min (c.updated + billed) c.env.now := htime
  replace hindex : o.desk.pod.premiumCheckpoint = c.env.actuary.premiumIndex := hindex
  dsimp only at hle hall hlow hhigh
  rw [hrate] at hlow hhigh
  have hbilled : o.desk.pod.updated = x.1.updated + billed := by omega
  obtain ⟨hopened, hindexed, hpaid, howed⟩ := hx
  have hsplit : value * (o.desk.pod.premiumCheckpoint - i + p * (o.desk.pod.updated - t)) =
      value * (x.1.premiumCheckpoint - i + p * (x.1.updated - t)) +
        value * (c.env.actuary.premiumIndex - x.1.premiumCheckpoint + p * billed) := by
    obtain ⟨a, ha⟩ := Nat.exists_eq_add_of_le hgrown
    rw [hindex, hbilled, Nat.sub_add_comm hopened, ha, Nat.sub_add_comm hindexed, Nat.add_sub_cancel_left]
    ring
  refine ⟨⟨by dsimp only; omega, by dsimp only; omega, ?_, ?_⟩, hindex, fun h => ?_⟩
  · rw [hsplit]
    linarith
  · rw [hsplit]
    linarith
  · have hdt := hall h
    dsimp only
    omega

theorem near_run {calls} (hx : Near value p t i n x)
    (hsteps : EveryStep touch (fun x c => Steady value p x c ∧ Meters value p x c) x calls)
    (hrun : runAll touch x calls = .ok x') : Near value p t i (n + calls.length) x' := by
  induction calls generalizing x n with
  | nil =>
    cases hrun
    exact hx
  | cons c calls ih =>
    obtain ⟨y, hy, hrest⟩ := of_bind hrun
    have hnear := near_touch hx hsteps.1.1 hsteps.1.2 hy
    rw [List.length_cons, Nat.add_comm calls.length, ← Nat.add_assoc]
    exact ih hnear.1 (hsteps.2 y hy) hrest

/-- Once the pledge is enough, what has been charged is the premium of the whole time, up to one unit for each touch.
-/
theorem premium_never_forgiven (value p b T : ℕ) (pod : Stock) (calls : List Call) (last : Call) (x x' : Stock × ℕ)
    (hsteps : EveryStep touch (fun x c => Steady value p x c ∧ Meters value p x c) (pod, 0) calls)
    (hrun : runAll touch (pod, 0) calls = .ok x) (hlast : touch x last = .ok x')
    (hsteady : Steady value p x last) (hmeters : Meters value p x last) (henough : Covered value p x last)
    (hnow : last.env.now = pod.updated + T) (hbase : last.env.actuary.premiumIndex = pod.premiumCheckpoint + b * T) :
    x'.2 * yearBps ≤ value * ((b + p) * T) + (calls.length + 1) * yearBps ∧
      value * ((b + p) * T) ≤ (x'.2 + (calls.length + 1)) * yearBps := by
  have hopen : Near value p pod.updated pod.premiumCheckpoint 0 (pod, 0) := by
    constructor
    all_goals simp
  obtain ⟨⟨-, -, hcharged, howed⟩, hindex, htime⟩ :=
    near_touch (near_run hopen hsteps hrun) hsteady hmeters hlast
  rw [hindex, htime henough, hbase, hnow, Nat.add_sub_cancel_left, Nat.add_sub_cancel_left, ← Nat.add_mul,
    Nat.zero_add] at hcharged howed
  exact ⟨hcharged, howed⟩

end

def baseActuary (rate now : ℕ) : Actuary := { steadyActuary with premiumIndex := rate * now }

def crankAt (rate pledged updated now : ℕ) : Call :=
  ⟨⟨100 * 10 ^ 6, now, 1, baseActuary rate now⟩, 0, pledged, updated, 0, 0, 500 * 10 ^ 6, (heldState leveredShort).bank⟩

def shortAt (pledged updated : ℕ) : Stock := { leveredShort with pledged, updated }

theorem premium_never_forgiven_capped :
    runAll touch (leveredShort, 0) [crankAt 0 100 0 1000] = .ok (shortAt 0 126, 100) ∧
      touch (shortAt 0 126, 100) (crankAt 0 (10 ^ 6) 126 2000) = .ok (shortAt 998515 2000, 1585) ∧
      1585 * yearBps ≤ 500 * 10 ^ 6 * ((0 + 500) * 2000) + (1 + 1) * yearBps ∧
      500 * 10 ^ 6 * ((0 + 500) * 2000) ≤ (1585 + (1 + 1)) * yearBps := by
  have hrun : runAll touch (leveredShort, 0) [crankAt 0 100 0 1000] = .ok (shortAt 0 126, 100) := by decide +kernel
  have hlast : touch (shortAt 0 126, 100) (crankAt 0 (10 ^ 6) 126 2000) = .ok (shortAt 998515 2000, 1585) := by
    decide +kernel
  have hfirst : Steady (500 * 10 ^ 6) 500 (leveredShort, 0) (crankAt 0 100 0 1000) ∧
      Meters (500 * 10 ^ 6) 500 (leveredShort, 0) (crankAt 0 100 0 1000) :=
    ⟨⟨by decide +kernel, by decide +kernel, rfl, by decide, le_rfl⟩,
      ⟨rfl, by decide +kernel, .inr (by decide +kernel), by decide, .inr ⟨rfl, by decide⟩⟩⟩
  have hall := premium_never_forgiven (500 * 10 ^ 6) 500 0 2000 leveredShort [crankAt 0 100 0 1000] _ _ _
    ⟨hfirst, fun _ _ => trivial⟩ hrun hlast ⟨by decide +kernel, by decide +kernel, rfl, by decide, le_rfl⟩
    ⟨rfl, by decide +kernel, .inr (by decide +kernel), by decide, .inl (by decide)⟩ (by decide) (by decide) (by decide)
  exact ⟨hrun, hlast, hall⟩

/-- With a base rate of 10 percent, a thousand seconds that the pledge does not cover are forgiven on the index. -/
theorem base_premium_forgiven : ∃ x, runAll touch (leveredShort, 0) [crankAt 1000 1000 0 1000, crankAt 1000 (10 ^ 6) 420
      2000] = .ok x ∧ x.2 = 3838 ∧ 4756 * yearBps ≤ 500 * 10 ^ 6 * ((1000 + 500) * 2000) := by
  decide +kernel

end QuidProtocol.Stay
