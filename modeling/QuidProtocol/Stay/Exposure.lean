import QuidProtocol.Stay.Risk

/-!
The book against the positions.
The leverage that the fee of a trade is computed from.
-/

namespace QuidProtocol.Stay

open Lib

@[mk_iff]
structure BookFollows (b b' : Book) (price : ℕ) (prior post : ℤ) : Prop where
  net : b'.netExposure = b.netExposure + (unitsValueI post price - unitsValueI prior price)
  total : b'.totalExposure = b.totalExposure + (|unitsValueI post price| - |unitsValueI prior price|)

def exposureIn (d : Depositor) (ticker : Ticker) : ℤ := ((podOf d.balances ticker).map Stock.exposure).getD 0

def Book.found (b : Book) (e : Env) : Book := b.updatePrice (asI64 e.price) (asI64 e.slot)

structure Whole (price : ℕ) (units : ℤ) : Prop where
  exact : (priceScale : ℤ) ∣ units * price
  fits : |units * price| < 2 ^ 63 * priceScale

def SameSide (x y : ℤ) : Prop := (0 ≤ x ∧ 0 ≤ y) ∨ (x ≤ 0 ∧ y ≤ 0)

/-- The orders that `repo` executes as asked: a reducing one up to zero, on a short above its pivot, and an increase
in the band whose margin the pledge and the balance cover. -/
def DoneAsAsked (e : Env) (k : Desk) (amount : ℤ) : Prop :=
  let q := quote e k amount
  let asked := k.pod.exposure + amount
  IsI64 asked ∧
    if q.reducing then SameSide k.pod.exposure asked ∧
      (0 < k.pod.exposure ∨ q.mark - q.collarAmt < q.oldValue ∨ q.oldValue = 0)
    else (q.oldValue = 0 ∨ WithinEdges k.pod q) ∧
      sat (sat128 (unitsValue asked.natAbs e.price * q.bandBps) / bps) ≤ k.pod.pledged - q.accrued + k.depositedQuid

def deskFound (e : Env) (s : State) (signer : Pubkey) (ticker : Ticker) (pod : Stock) (bank : Depository) : Desk :=
  ⟨(settleFunding e.actuary e.price pod (s.risks ticker).fundingPot).1, (s.depositors signer).depositedQuid,
    (s.depositors signer).drawn, bank⟩

section

variable {e : Env} {after : Actuary} {tail : Tail} {b b' : Book} {s s' : State} {v : Vaults} {signer : Pubkey}
  {ticker : Ticker} {amount : ℤ} {paid : ℕ} {pod : Stock}

theorem handleOutTradeBooked_eq
    (h : handleOutTradeBooked e after tail b s v signer ticker amount = .ok (s', b', paid)) :
    ∃ pod feeBps, podOf (s.depositors signer).balances ticker = some pod ∧
      handleOutTrade { e with actuary := { e.actuary with netExposure := (b.found e).netExposure, feeBps } }
        { after with netExposure := b'.netExposure } s v signer ticker amount = .ok (s', paid) ∧
      b'.netExposure = (b.found e).netExposure + unitsValueI amount e.price ∧
      b'.totalExposure = if Book.isAdding pod.exposure (unitsValueI amount e.price) then
          (b.found e).totalExposure + |unitsValueI amount e.price|
        else max 0 ((b.found e).totalExposure - |unitsValueI amount e.price|) := by
  obtain ⟨-, -, h⟩ := of_require₂ h
  obtain ⟨bank, -, before, hbefore, fee, -, ⟨traded, payout⟩, htraded, h⟩ := of_bind₄ h
  obtain ⟨size, -, book, hbook, h⟩ := of_bind₂ h
  obtain ⟨rfl, hrest⟩ := ok_pair_inj h
  obtain ⟨rfl, rfl⟩ := Prod.mk.inj hrest
  obtain ⟨hnet, htotal, -⟩ := Book.recordActivity_eq hbook
  refine ⟨before, fun _ _ _ _ _ => fee.toNat, found_eq_ok.mp hbefore, ?_, hnet, htotal⟩
  rw [hnet]
  exact htraded

variable {price : ℕ} {x y : ℤ}

theorem Whole.value (h : Whole price x) : unitsValueI x price * priceScale = x * price := by
  obtain ⟨n, hn⟩ := h.exact
  have hfits := h.fits
  have hscale : (priceScale : ℤ) = 1000000 := rfl
  rw [hn, hscale] at hfits
  have hbound := abs_lt.mp hfits
  unfold unitsValueI satI64
  rw [hn, hscale, Int.mul_tdiv_cancel_left n (by norm_num)]
  omega

theorem Whole.value_add (hx : Whole price x) (hy : Whole price y) (hsum : Whole price (x + y)) :
    unitsValueI (x + y) price = unitsValueI x price + unitsValueI y price := by
  have hscale : (priceScale : ℤ) ≠ 0 := by decide
  apply mul_right_cancel₀ hscale
  rw [hsum.value, add_mul, add_mul, hx.value, hy.value]

theorem Whole.nonneg (h : Whole price x) (hx : 0 ≤ x) : 0 ≤ unitsValueI x price := by
  have hscale : (0 : ℤ) < priceScale := by decide
  apply nonneg_of_mul_nonneg_left _ hscale
  rw [h.value]
  exact mul_nonneg hx (Int.natCast_nonneg _)

theorem Whole.nonpos (h : Whole price x) (hx : x ≤ 0) : unitsValueI x price ≤ 0 := by
  have hscale : (0 : ℤ) < priceScale := by decide
  apply nonpos_of_mul_nonpos_left _ hscale
  rw [h.value]
  exact mul_nonpos_of_nonpos_of_nonneg hx (Int.natCast_nonneg _)

theorem total_follows {prior z total} (hz : z = x + y)
    (hside : (0 ≤ prior ∧ 0 ≤ x ∧ 0 ≤ z) ∨ (prior ≤ 0 ∧ x ≤ 0 ∧ z ≤ 0)) (hflat : prior = 0 → x = 0)
    (hroom : Book.isAdding prior y ∨ |y| ≤ total) :
    (if Book.isAdding prior y then total + |y| else max 0 (total - |y|)) = total + (|z| - |x|) := by
  have hadding : Book.isAdding prior y = true ↔ prior = 0 ∨ (0 < prior ∧ 0 < y) ∨ (prior < 0 ∧ y < 0) :=
    decide_eq_true_iff
  obtain ⟨hprior, hx, hz'⟩ | ⟨hprior, hx, hz'⟩ := hside
  · rw [abs_of_nonneg hx, abs_of_nonneg hz']
    split_ifs with hadd
    · have hy : 0 ≤ y := by
        rw [hadding] at hadd
        omega
      rw [abs_of_nonneg hy]
      omega
    · have hy : y ≤ 0 := by
        rw [hadding] at hadd
        omega
      have htotal := hroom.resolve_left hadd
      rw [abs_of_nonpos hy] at htotal ⊢
      omega
  · rw [abs_of_nonpos hx, abs_of_nonpos hz']
    split_ifs with hadd
    · have hy : y ≤ 0 := by
        rw [hadding] at hadd
        omega
      rw [abs_of_nonpos hy]
      omega
    · have hy : 0 ≤ y := by
        rw [hadding] at hadd
        omega
      have htotal := hroom.resolve_left hadd
      rw [abs_of_nonneg hy] at htotal ⊢
      omega

theorem funded_done {k q} (hword : IsI64 (k.pod.exposure + amount))
    (hcovered : sat (sat128 (unitsValue (k.pod.exposure + amount).natAbs e.price * q.bandBps) / bps) ≤
      k.pod.pledged + k.depositedQuid) : (funded e k q amount).1.pod.exposure = k.pod.exposure + amount := by
  unfold funded fundMargin
  dsimp only
  rw [satI64_of_word hword.1 hword.2]
  split_ifs
  · rfl
  · omega
  · omega
  · rfl

theorem DoneAsAsked.at_fee {k} (feeBps) (h : DoneAsAsked e k amount) :
    DoneAsAsked { e with actuary := { e.actuary with feeBps } } k amount := by
  have hquote : quote { e with actuary := { e.actuary with feeBps } } k amount = quote e k amount := rfl
  unfold DoneAsAsked at h ⊢
  rw [hquote]
  exact h

theorem order_done {k o} (horder : amount ≠ 0) (hdone : DoneAsAsked e k amount) (h : repoPod e k amount = .ok o) :
    o.desk.pod.exposure = k.pod.exposure + amount := by
  obtain ⟨hword, hdone⟩ := hdone
  have hsat := satI64_of_word hword.1 hword.2
  have hreduces : (quote e k amount).reducing = true ↔
      amount ≠ 0 ∧ k.pod.exposure ≠ 0 ∧ (amount < 0 ↔ 0 < k.pod.exposure) := decide_eq_true_iff
  obtain ⟨hcall, -⟩ | ⟨-, o', rfl, hexit⟩ := repoPod_exits h
  · have hcalled : amount = 0 ∧ _ := of_decide_eq_true hcall
    exact absurd hcalled.1 horder
  obtain ⟨breachedAt, hclear⟩ := clearBreach_eq (chargedDesk e k amount) (quote e k amount) (quote e k amount).oldValue
  cases hexit with
  | unwound hnone => exact absurd hnone horder
  | posted hadding hvalue _ hout | reinstated _ hadding hvalue _ hout =>
    rw [if_neg hadding] at hdone
    exact absurd (hdone.1.resolve_left hvalue.ne') hout
  | ignored hreducing hside hvalue hbelow =>
    have hshort : k.pod.exposure ≤ 0 := exposure_nonpos hside
    rw [if_pos hreducing] at hdone
    omega
  | sold hneg _ hlong =>
    have hlong : 0 < k.pod.exposure := hlong
    rw [if_pos (hreduces.mpr (by omega)), SameSide] at hdone
    dsimp only
    rw [sellLong_exposure, hclear]
    dsimp only [chargedDesk]
    omega
  | bought hpos _ hbuy hlong =>
    have hlong : 0 ≤ k.pod.exposure := hlong
    rw [if_neg (by rw [hreduces]; omega)] at hdone
    obtain ⟨-, marked, collarBps, drawn, rfl⟩ := buyLong_eq hbuy
    rw [hclear]
    exact funded_done hword hdone.2
  | covered hpos hin hshort =>
    have hshort : k.pod.exposure < 0 := hshort
    rw [if_pos (hreduces.mpr (by omega)), SameSide] at hdone
    rw [hclear]
    change min (satI64 (k.pod.exposure + amount)) 0 = _
    omega
  | marked hside _ hissue =>
    have hshort : k.pod.exposure ≤ 0 := exposure_nonpos hside
    rw [hclear] at hissue
    obtain ⟨hneg, rfl⟩ | ⟨-, rfl⟩ := issueShort_eq hissue
    · rw [if_neg (by rw [hreduces]; omega)] at hdone
      exact funded_done hword hdone.2
    · exact hsat

theorem dispatchTrade_balances (o d before preDq fee now) :
    (dispatchTrade o d before preDq fee now).customer.balances = d.balances := by
  unfold dispatchTrade
  dsimp only
  split_ifs
  all_goals rfl

theorem podOf_fundPosition {d} (hpod : podOf d.balances ticker = some pod) (actuary price risk) :
    podOf (fundPosition actuary price d risk ticker).1.balances ticker =
      some (settleFunding actuary price pod risk.fundingPot).1 := by
  rw [fundPosition_some hpod]
  apply podOf_putPod hpod
  rw [(settleFunding_keeps _ _ _ _).1]
  exact podOf_ticker hpod

theorem handleOutTrade_exposure (hpod : podOf (s.depositors signer).balances ticker = some pod)
    (h : handleOutTrade e after s v signer ticker amount = .ok (s', paid)) :
    ∃ bank o, s.bank.age e.now = .ok bank ∧ repoPod e (deskFound e s signer ticker pod bank) amount = .ok o ∧
      exposureIn (s'.depositors signer) ticker = o.desk.pod.exposure := by
  obtain ⟨t, ht, -, rfl⟩ := handleOutTrade_eq h
  have htrade := tradeOf_eq ht
  obtain ⟨settled, hsettled, hrepo, htraded⟩ := repo_eq_ok htrade.traded
  have hticker : t.outcome.desk.pod.ticker = ticker := by
    rw [(keeps_repoPod hrepo).ticker]
    exact podOf_ticker hsettled
  have hfound := podOf_fundPosition hpod e.actuary e.price (s.risks ticker)
  rw [htrade.funding, hsettled] at hfound
  obtain ⟨hfunding, -⟩ := Prod.mk.inj ((fundPosition_some hpod).symm.trans htrade.funding)
  refine ⟨t.bank, t.outcome, htrade.bank, ?_, ?_⟩
  · rw [Option.some.inj hfound, ← hfunding] at hrepo
    exact hrepo
  · unfold exposureIn
    dsimp only
    rw [Function.update_self, htrade.settled, dispatchTrade_balances, htraded]
    dsimp only [Depositor.settle]
    rw [podOf_putPod hsettled hticker]
    rfl

/-- The book follows a trade only when the value of what was asked for is that of what was done. -/
theorem book_follows_trade (hpod : podOf (s.depositors signer).balances ticker = some pod)
    (h : handleOutTradeBooked e after tail b s v signer ticker amount = .ok (s', b', paid)) :
    (BookFollows (b.found e) b' e.price pod.exposure (exposureIn (s'.depositors signer) ticker) →
      unitsValueI amount e.price =
        unitsValueI (exposureIn (s'.depositors signer) ticker) e.price - unitsValueI pod.exposure e.price) ∧
    (exposureIn (s'.depositors signer) ticker = pod.exposure + amount → SameSide pod.exposure (pod.exposure + amount) →
      Whole e.price pod.exposure → Whole e.price amount → Whole e.price (pod.exposure + amount) →
      Book.isAdding pod.exposure (unitsValueI amount e.price) ∨
        |unitsValueI amount e.price| ≤ (b.found e).totalExposure →
      BookFollows (b.found e) b' e.price pod.exposure (exposureIn (s'.depositors signer) ticker)) ∧
    (0 < pod.exposure → pod.exposure < 2 ^ 63 → amount < 0 → 0 ≤ pod.exposure + amount →
      exposureIn (s'.depositors signer) ticker = pod.exposure + amount) ∧
    ∀ bank, s.bank.age e.now = .ok bank →
      DoneAsAsked (e.reading (b.found e)) (deskFound e s signer ticker pod bank) amount →
      exposureIn (s'.depositors signer) ticker = pod.exposure + amount := by
  obtain ⟨horder, -, -⟩ := of_require₂ h
  obtain ⟨pod', feeBps, hpod', htrade, hnet, htotal⟩ := handleOutTradeBooked_eq h
  obtain rfl := Option.mem_unique hpod' hpod
  obtain ⟨bank, o, hbank, hrepo, hleft⟩ := handleOutTrade_exposure hpod htrade
  have hexposure := (settleFunding_keeps e.actuary e.price (s.risks ticker).fundingPot pod').2
  have hdone (hdone : DoneAsAsked (e.reading (b.found e)) (deskFound e s signer ticker pod' bank) amount) :
      exposureIn (s'.depositors signer) ticker = pod'.exposure + amount := by
    rw [hleft, order_done horder (hdone.at_fee feeBps) hrepo, ← hexposure]
    rfl
  refine ⟨?_, ?_, ?_, ?_⟩
  · intro hfollows
    have hmoved := hfollows.net
    omega
  · intro hdone hside hprior hamount hpost hroom
    have hsum := hprior.value_add hamount hpost
    rw [hdone]
    constructor
    · rw [hnet, hsum]
      omega
    · rw [htotal]
      apply total_follows hsum _ _ hroom
      · obtain ⟨hx, hz⟩ | ⟨hx, hz⟩ := hside
        · exact .inl ⟨hx, hprior.nonneg hx, hpost.nonneg hz⟩
        · exact .inr ⟨hx, hprior.nonpos hx, hpost.nonpos hz⟩
      · intro hflat
        rw [hflat]
        simp [unitsValueI, satI64]
  · intro hlong hfits hneg hwithin
    rw [← hexposure] at hlong hfits hwithin
    apply hdone
    have hreducing : (quote (e.reading (b.found e)) (deskFound e s signer ticker pod' bank) amount).reducing :=
      decide_eq_true (by dsimp only [deskFound]; omega)
    refine ⟨⟨by dsimp only [deskFound]; omega, by dsimp only [deskFound]; omega⟩, ?_⟩
    rw [if_pos hreducing]
    exact ⟨.inl ⟨hlong.le, hwithin⟩, .inl hlong⟩
  · intro bank' hbank'
    obtain rfl := ok_unique hbank' hbank
    exact hdone

end

def calmTail : Tail := ⟨200, 0, fun _ => 0, fun _ => 1⟩

def longBook : Book := ⟨500 * 10 ^ 6, 500 * 10 ^ 6, 0, 0, 1, 100 * 10 ^ 6, 1⟩

def orderBooked (amount : ℤ) : Res (State × Book × ℕ) :=
  handleOutTradeBooked steadyPrice steadyActuary calmTail longBook (heldState heldLong) fullVault 1 1 amount

theorem book_follows_sale : ∃ s' b' paid, orderBooked (-2 * 10 ^ 6) = .ok (s', b', paid) ∧
    BookFollows (longBook.found steadyPrice) b' steadyPrice.price heldLong.exposure
      (exposureIn (s'.depositors 1) 1) := by
  obtain ⟨⟨s', b', paid⟩, h⟩ : ∃ r, orderBooked (-2 * 10 ^ 6) = .ok r := by decide +kernel
  have hpod : podOf ((heldState heldLong).depositors 1).balances 1 = some heldLong := by decide +kernel
  obtain ⟨-, hfollows, hdone, -⟩ := book_follows_trade hpod h
  refine ⟨s', b', paid, h, ?_⟩
  apply hfollows (hdone (by decide) (by decide) (by decide) (by decide)) (.inl (by decide))
  · exact ⟨by decide, by decide⟩
  · exact ⟨by decide, by decide⟩
  · exact ⟨by decide, by decide⟩
  · exact .inr (by decide)

theorem oversold_book : ∃ s' b' paid, orderBooked (-8 * 10 ^ 6) = .ok (s', b', paid) ∧
    exposureIn (s'.depositors 1) 1 = 0 ∧ b'.netExposure = -300 * 10 ^ 6 ∧
    ¬ BookFollows (longBook.found steadyPrice) b' steadyPrice.price heldLong.exposure
      (exposureIn (s'.depositors 1) 1) := by
  simp only [bookFollows_iff]
  decide +kernel

def LiquidationFollows (b b' : Book) (exposure : ℤ) (unwoundValue : ℕ) : Prop :=
  b'.totalExposure = max 0 (b.totalExposure - unwoundValue) ∧
    b'.netExposure = b.netExposure - exposure.sign * unwoundValue

def VisitFollows (e : Env) (ticker : Ticker) (x : Sweep × Book) (v : Visit) : Prop :=
  ∀ o t pod x', visitOutcome e ticker x.1 (v.reading x.2 x.2) = some o → o.tranche = some t →
    podOf (x.1.depositors v.key).balances ticker = some pod → sweepOneBooked e ticker x v = .ok x' →
    LiquidationFollows x.2 x'.2 pod.exposure t.unwoundValue

def VisitWorthless (e : Env) (ticker : Ticker) (x : Sweep × Book) (v : Visit) : Prop :=
  ∀ o t, visitOutcome e ticker x.1 (v.reading x.2 x.2) = some o → o.tranche = some t → t.unwoundValue = 0

section

variable {e : Env} {after : Actuary} {b b' : Book} {s s' : State} {borrower liquidator : Pubkey} {ticker : Ticker}
  {prices : List ℕ} {k : Desk} {o : Outcome} {t : Tranche} {d : Depositor} {pod : Stock} {x x' : Sweep × Book}
  {v : Visit}

theorem unwound_nonneg {units} (hlong : 0 < pod.exposure) (hfits : pod.exposure < 2 ^ 63)
    (hunits : units ≤ pod.exposure.natAbs) : 0 ≤ unwound pod units := by
  unfold unwound satI64
  rw [asI64_of_lt (by omega), Int.sign_eq_one_of_pos hlong]
  omega

theorem crank_tranche (h : repoPod e k 0 = .ok o) (ht : o.tranche = some t) :
    o.desk.pod.exposure = unwound k.pod t.units ∧ t.units ≤ k.pod.exposure.natAbs ∧
      t.unwoundValue = unitsValue t.units e.price ∧ o.delta = -(min (t.unwoundValue - t.retained) i64Max : ℕ) := by
  have hunwind (k : Desk) (q : Quote) (time : ℕ) (ht : (unwindATranche e k q time).tranche = some t) :
      (unwindATranche e k q time).desk.pod.exposure = unwound k.pod t.units ∧ t.units ≤ k.pod.exposure.natAbs ∧
        t.unwoundValue = unitsValue t.units e.price ∧
        (unwindATranche e k q time).delta = -(min (t.unwoundValue - t.retained) i64Max : ℕ) := by
    obtain ⟨htranche, hexposure, -, hdelta⟩ := unwind_taken ht
    refine ⟨hexposure, ?_, ?_, hdelta⟩
    · rw [htranche]
      exact min_le_right _ _
    · rw [htranche]
      rfl
  obtain ⟨-, rfl⟩ | ⟨-, o', rfl, hexit⟩ := repoPod_exits h
  · exact hunwind (checkpointed e k) _ _ ht
  · have htaken : o'.tranche.isSome := Option.isSome_iff_exists.mpr ⟨t, ht⟩
    obtain ⟨time, rfl⟩ := hexit.unwinds rfl htaken
    exact hunwind (chargedDesk e k 0) _ _ ht

theorem crankOf_pod (hpod : podOf (s.depositors borrower).balances ticker = some pod)
    (h : crankOf e s borrower ticker = .ok (d, o)) : ∃ k, k.pod = pod ∧ repoPod e k 0 = .ok o := by
  obtain ⟨customer, hcustomer, bank, -, h⟩ := of_bind₂ h
  obtain ⟨pod', hpod', hrepo, -⟩ := repo_eq_ok h
  rw [depositorAge_eq hcustomer] at hpod'
  exact ⟨_, Option.mem_unique hpod' hpod, hrepo⟩

theorem amortiseBooked_amortise (h : amortiseBooked e after b s borrower liquidator ticker prices = .ok (s', b')) :
    amortise (e.reading (b.found e)) { after with netExposure := b'.netExposure } s borrower liquidator ticker prices =
      .ok s' := by
  obtain ⟨⟨traded, o⟩, -, s₁, hs₁, booked, -, book, hbook, hend⟩ := of_bind₄ h
  cases hend
  rw [(Book.recordActivity_eq hbook).1]
  exact hs₁

theorem amortiseBooked_eq (h : amortiseBooked e after b s borrower liquidator ticker prices = .ok (s', b'))
    (ho : crankOf (e.reading (b.found e)) s borrower ticker = .ok (d, o)) :
    o.delta ≠ 0 ∧ b'.netExposure = (b.found e).netExposure + recorded o ∧
      b'.totalExposure = if Book.isAdding o.desk.pod.exposure (recorded o) then (b.found e).totalExposure + |recorded o|
        else max 0 ((b.found e).totalExposure - |recorded o|) := by
  obtain ⟨⟨traded, o'⟩, hcrank, s₁, hs₁, booked, -, book, hbook, hend⟩ := of_bind₄ h
  cases hend
  obtain ⟨rfl, rfl⟩ := Prod.mk.inj (ok_unique ho hcrank)
  obtain ⟨customer, bank, traded, o', -, -, -, hcustomer, hbank, hrepo, hdelta, -⟩ := amortise_eq hs₁
  obtain ⟨rfl, rfl⟩ := Prod.mk.inj (Except.ok.inj (hcrank.symm.trans (crankOf_ok hcustomer hbank hrepo)))
  obtain ⟨hnet, htotal, -⟩ := Book.recordActivity_eq hbook
  exact ⟨hdelta, hnet, htotal⟩

theorem recorded_neg {n : ℕ} (hn : 0 < n) (hdelta : o.delta = -(n : ℤ)) :
    recorded o = -(n - n / 250 : ℕ) ∧ 0 < n - n / 250 := by
  have hneg : o.delta < 0 := by omega
  have habs : o.delta.natAbs = n := by omega
  unfold recorded commissionOf
  rw [if_pos hneg, habs]
  exact ⟨rfl, by omega⟩

theorem credit_whole_iff {value retained} (hcredit : 0 < min (value - retained) i64Max) :
    min (value - retained) i64Max - min (value - retained) i64Max / 250 = value ↔ retained = 0 ∧ value < 250 := by
  have hcap : i64Max = 2 ^ 63 - 1 := rfl
  omega

theorem amortise_follows_iff (htotal : 0 ≤ (b.found e).totalExposure)
    (h : amortiseBooked e after b s borrower liquidator ticker prices = .ok (s', b'))
    (ho : crankOf (e.reading (b.found e)) s borrower ticker = .ok (d, o)) (ht : o.tranche = some t)
    (hpod : podOf (s.depositors borrower).balances ticker = some pod) (hfits : pod.exposure < 2 ^ 63) :
    LiquidationFollows (b.found e) b' pod.exposure t.unwoundValue ↔
      0 < pod.exposure ∧ o.desk.pod.exposure ≠ 0 ∧ t.retained = 0 ∧ t.unwoundValue < 250 := by
  obtain ⟨hmoved, hnet, htotal'⟩ := amortiseBooked_eq h ho
  obtain ⟨k, rfl, hrepo⟩ := crankOf_pod hpod ho
  obtain ⟨hleft, hunits, -, hdelta⟩ := crank_tranche hrepo ht
  have hn : 0 < min (t.unwoundValue - t.retained) i64Max := by omega
  obtain ⟨hrecorded, hpos⟩ := recorded_neg hn hdelta
  have hwhole := credit_whole_iff hn
  generalize min (t.unwoundValue - t.retained) i64Max - min (t.unwoundValue - t.retained) i64Max / 250 =
    credit at hrecorded hpos hwhole
  clear hn hdelta hmoved
  have hadding : Book.isAdding o.desk.pod.exposure (recorded o) = true ↔ o.desk.pod.exposure ≤ 0 := by
    rw [hrecorded]
    unfold Book.isAdding
    rw [decide_eq_true_iff]
    omega
  have habs : |(-(credit : ℤ))| = credit := by rw [abs_neg, Nat.abs_cast]
  rw [hrecorded] at hnet
  rw [hrecorded, habs] at htotal'
  unfold LiquidationFollows
  obtain hlong | hflat | hshort := lt_trichotomy 0 k.pod.exposure
  · rw [Int.sign_eq_one_of_pos hlong, hnet, htotal']
    have hstays := unwound_nonneg hlong hfits hunits
    rw [← hleft] at hstays
    by_cases hopen : o.desk.pod.exposure = 0
    · rw [if_pos (by rw [← hrecorded]; exact hadding.mpr (by omega))]
      omega
    · rw [if_neg (by rw [← hrecorded, hadding]; omega)]
      omega
  · rw [← hflat, hnet]
    simp only [Int.sign_zero]
    omega
  · rw [Int.sign_eq_neg_one_of_neg hshort, hnet]
    omega

theorem sweepOneBooked_sweep (h : sweepOneBooked e ticker x v = .ok x') :
    x'.1 = sweepOne e ticker x.1 (v.reading x.2 x'.2) := by
  unfold sweepOneBooked at h
  split at h
  · split_ifs at h with hneg
    · obtain ⟨book, -, hend⟩ := of_bind h
      rw [← Except.ok.inj hend]
    · rw [← Except.ok.inj h]
  · rw [← Except.ok.inj h]

theorem sweepOneBooked_eq (h : sweepOneBooked e ticker x v = .ok x') :
    (∃ o, visitOutcome e ticker x.1 (v.reading x.2 x.2) = some o ∧ o.delta < 0 ∧
      x'.2.netExposure = x.2.netExposure - (o.delta.natAbs - commissionOf o.delta : ℕ) ∧
      x'.2.totalExposure = x.2.totalExposure + (o.delta.natAbs - commissionOf o.delta : ℕ)) ∨
    ((∀ o, visitOutcome e ticker x.1 (v.reading x.2 x.2) = some o → ¬ o.delta < 0) ∧ x'.2 = x.2) := by
  unfold sweepOneBooked at h
  cases hvisit : visitOutcome e ticker x.1 (v.reading x.2 x.2) with
  | none =>
    rw [hvisit] at h
    cases h
    refine .inr ⟨fun o ho => ?_, rfl⟩
    cases ho
  | some o =>
    rw [hvisit] at h
    dsimp only at h
    split_ifs at h with hneg
    · obtain ⟨book, hbook, hend⟩ := of_bind h
      obtain ⟨hnet, htotal, -⟩ := Book.recordActivity_eq hbook
      rw [if_pos (by simp [Book.isAdding]), abs_neg, Nat.abs_cast] at htotal
      cases hend
      exact .inl ⟨o, rfl, hneg, hnet, htotal⟩
    · cases h
      refine .inr ⟨fun o' ho' => ?_, rfl⟩
      cases ho'
      exact hneg

theorem visitOutcome_pod (h : visitOutcome e ticker x.1 v = some o) : ∃ k pod,
    podOf (x.1.depositors v.key).balances ticker = some pod ∧ k.pod.exposure = pod.exposure ∧
      repoPod { e with actuary := v.actuary } k 0 = .ok o := by
  unfold visitOutcome at h
  split_ifs at h with hopen
  obtain ⟨⟨d, o'⟩, hrepo, ho'⟩ := of_bind (toOption_eq_some.mp h)
  cases ho'
  obtain ⟨funded, hfunded, hcrank, -⟩ := repo_eq_ok hrepo
  cases hpod : podOf (x.1.depositors v.key).balances ticker with
  | none =>
    unfold Sweep.funded fundPosition at hfunded
    rw [hpod] at hfunded
    exact absurd hfunded (by rw [hpod]; simp)
  | some pod =>
    have hfound := podOf_fundPosition hpod v.actuary e.price x.1.risk
    rw [hfunded] at hfound
    refine ⟨_, pod, rfl, ?_, hcrank⟩
    dsimp only
    rw [Option.some.inj hfound, (settleFunding_keeps _ _ _ _).2]

theorem sweepOneBooked_total (htotal : 0 ≤ x.2.totalExposure) (h : sweepOneBooked e ticker x v = .ok x') :
    0 ≤ x'.2.totalExposure := by
  obtain ⟨o, -, -, -, hmoved⟩ | ⟨-, hsame⟩ := sweepOneBooked_eq h
  · omega
  · rw [hsame]
    exact htotal

theorem visit_tranche (ho : visitOutcome e ticker x.1 v = some o) (ht : o.tranche = some t) :
    ∃ pod, podOf (x.1.depositors v.key).balances ticker = some pod ∧ (pod.exposure = 0 → t.unwoundValue = 0) ∧
      o.delta = -(min (t.unwoundValue - t.retained) i64Max : ℕ) := by
  obtain ⟨k, pod, hpod, hsame, hrepo⟩ := visitOutcome_pod ho
  obtain ⟨-, hunits, hvalue, hdelta⟩ := crank_tranche hrepo ht
  refine ⟨pod, hpod, ?_, hdelta⟩
  intro hflat
  have hnone : t.units = 0 := by
    rw [hsame, hflat] at hunits
    exact Nat.le_zero.mp hunits
  rw [hvalue, hnone]
  simp [unitsValue, sat, sat128]

theorem visitFollows_iff (htotal : 0 ≤ x.2.totalExposure) (h : sweepOneBooked e ticker x v = .ok x') :
    VisitFollows e ticker x v ↔ VisitWorthless e ticker x v := by
  constructor
  · intro hfollows o t ho ht
    obtain ⟨pod, hpod, hflat, hdelta⟩ := visit_tranche ho ht
    obtain ⟨hfall, hnet⟩ := hfollows o t pod x' ho ht hpod h
    obtain ⟨o', ho', hneg, -, hrise⟩ | ⟨hstill, hsame⟩ := sweepOneBooked_eq h
    · -- the pool was credited, so the total has risen
      obtain rfl := Option.mem_unique ho ho'
      have hcut : commissionOf o.delta = o.delta.natAbs / 250 := rfl
      omega
    · rw [hsame] at hnet
      by_contra hworth
      have hsign : pod.exposure.sign * t.unwoundValue = 0 := by omega
      obtain hzero | hzero := mul_eq_zero.mp hsign
      · exact hworth (hflat (Int.sign_eq_zero_iff_zero.mp hzero))
      · omega
  · intro hworthless o t pod x'' ho ht hpod hstep
    obtain rfl := ok_unique hstep h
    obtain ⟨-, -, -, hdelta⟩ := visit_tranche ho ht
    have hzero := hworthless o t ho ht
    obtain ⟨o', ho', hneg, -, -⟩ | ⟨-, hsame⟩ := sweepOneBooked_eq h
    · obtain rfl := Option.mem_unique ho ho'
      omega
    · unfold LiquidationFollows
      rw [hsame, hzero]
      constructor
      · omega
      · simp

/-- The book follows the tranches of liquidations and of sweeps just when they are worth next to nothing. -/
theorem book_follows_liquidation_iff (e : Env) (ticker : Ticker) (b : Book) (htotal : 0 ≤ (b.found e).totalExposure) :
    (∀ (after : Actuary) (s s' : State) (b' : Book) (borrower liquidator : Pubkey) (prices : List ℕ) (d : Depositor)
      (o : Outcome) (t : Tranche) (pod : Stock),
      amortiseBooked e after b s borrower liquidator ticker prices = .ok (s', b') →
      crankOf (e.reading (b.found e)) s borrower ticker = .ok (d, o) → o.tranche = some t →
      podOf (s.depositors borrower).balances ticker = some pod → pod.exposure < 2 ^ 63 →
      (LiquidationFollows (b.found e) b' pod.exposure t.unwoundValue ↔
        0 < pod.exposure ∧ o.desk.pod.exposure ≠ 0 ∧ t.retained = 0 ∧ t.unwoundValue < 250)) ∧
    (∀ (s : State) (visits : List Visit) (x : Sweep × Book), b.swept e s ticker visits = .ok x →
      (EveryStep (sweepOneBooked e ticker) (VisitFollows e ticker) (Sweep.start e s ticker, b.found e) visits ↔
        EveryStep (sweepOneBooked e ticker) (VisitWorthless e ticker) (Sweep.start e s ticker, b.found e) visits)) := by
  constructor
  · intro after s s' b' borrower liquidator prices d o t pod h ho ht hpod hfits
    exact amortise_follows_iff htotal h ho ht hpod hfits
  · intro s visits x hrun
    apply everyStep_congr (I := fun x => 0 ≤ x.2.totalExposure) _ _ htotal hrun
    · intro x v x' hx h
      exact sweepOneBooked_total hx h
    · intro x v x' hx h
      exact visitFollows_iff hx h

end

def dustLong : Stock := ⟨1, 0, 10, 9000, 1000, 0, 0, 1200, 1⟩

def dustBook : Book := ⟨1000, 1000, 0, 0, 1, 100 * 10 ^ 6, 1⟩

def squeezedShort : Stock := { leveredShort with updated := 9000, breachedAt := 1 }

def shortBook : Book := ⟨-500 * 10 ^ 6, 500 * 10 ^ 6, 0, 0, 1, 100 * 10 ^ 6, 1⟩

def squeezePrice : Env := ⟨112 * 10 ^ 6, 10000, 1, steadyActuary⟩

def liquidateBooked (e : Env) (b : Book) (pod : Stock) : Res (State × Book) :=
  amortiseBooked e steadyActuary b (heldState pod) 1 2 1 []

def trancheIn (e : Env) (pod : Stock) : Res (Depositor × Outcome) := crankOf e (heldState pod) 1 1

theorem book_follows_dust : ∃ s' b' d o t, liquidateBooked steadyPrice dustBook dustLong = .ok (s', b') ∧
    trancheIn (steadyPrice.reading (dustBook.found steadyPrice)) dustLong = .ok (d, o) ∧ o.tranche = some t ∧
    0 < t.unwoundValue ∧ LiquidationFollows (dustBook.found steadyPrice) b' dustLong.exposure t.unwoundValue := by
  obtain ⟨⟨s', b'⟩, h⟩ : ∃ r, liquidateBooked steadyPrice dustBook dustLong = .ok r := by decide +kernel
  obtain ⟨d, o, ho, t, ht, hvalue, hretained, hleft⟩ :
      ∃ d o, trancheIn (steadyPrice.reading (dustBook.found steadyPrice)) dustLong = .ok (d, o) ∧
        ∃ t, o.tranche = some t ∧ t.unwoundValue = 100 ∧ t.retained = 0 ∧ o.desk.pod.exposure = 9 := by
    decide +kernel
  have hpod : podOf ((heldState dustLong).depositors 1).balances 1 = some dustLong := by decide +kernel
  obtain ⟨hliquidation, -⟩ := book_follows_liquidation_iff steadyPrice 1 dustBook (by decide)
  refine ⟨s', b', d, o, t, h, ho, ht, by rw [hvalue]; decide, ?_⟩
  apply (hliquidation _ _ _ _ _ _ _ _ _ _ _ h ho ht hpod (by decide)).mpr
  exact ⟨by decide, by rw [hleft]; decide, hretained, by rw [hvalue]; decide⟩

theorem liquidations_leave_book :
    (∃ x o t, longBook.swept fallenPrice (heldState leveredLong) 1 [fundedVisit 0] = .ok x ∧
      visitOutcome fallenPrice 1 (Sweep.start fallenPrice (heldState leveredLong) 1)
        ((fundedVisit 0).reading (longBook.found fallenPrice) (longBook.found fallenPrice)) = some o ∧
      o.tranche = some t ∧ t.unwoundValue = 150 * 10 ^ 6 ∧ (longBook.found fallenPrice).totalExposure = 300 * 10 ^ 6 ∧
      x.2.totalExposure = 449400000) ∧
    (∃ s' b' d o t, liquidateBooked squeezePrice shortBook squeezedShort = .ok (s', b') ∧
      trancheIn (squeezePrice.reading (shortBook.found squeezePrice)) squeezedShort = .ok (d, o) ∧
      o.tranche = some t ∧ t.unwoundValue = 9999920 ∧ (shortBook.found squeezePrice).netExposure = -560 * 10 ^ 6 ∧
      (shortBook.found squeezePrice).totalExposure = 560 * 10 ^ 6 ∧
      b'.netExposure = -569248514 ∧ b'.totalExposure = 569248514) := by
  simp only [exists_and_left]
  set_option synthInstance.maxSize 1000 in
  decide +kernel

structure Book.Roomy (b : Book) (v slot : ℤ) : Prop where
  net : |b.netExposure| + |v| < 2 ^ 63
  total : |b.totalExposure| + |v| < 2 ^ 63
  size : |v| * bps < 2 ^ 63
  velocity : 0 ≤ b.velocity ∧ b.velocity ≤ 255
  momentum : |b.momentumBps| ≤ bps
  since : 0 ≤ slot - b.lastTradeSlot ∧ (slot - b.lastTradeSlot) * 20 < 2 ^ 62

def percentLeverage (pod : Stock) (price : ℕ) : ℕ := unitsValue pod.exposure.natAbs price * 100 / pod.pledged

section

variable {x : ℤ} {b : Book} {v slot size total velocity contribution : ℤ}

theorem yields_i64 (hlow : -2 ^ 63 ≤ x) (hhigh : x < 2 ^ 63) :
    Yields (i64 x) (· = x) := ⟨x, i64_of_fits hlow hhigh, rfl⟩

namespace Book

theorem classify_yields (h : b.Roomy v slot) (exposure : ℤ) : Yields (b.classify exposure v) fun _ => True := by
  have hnet := h.net
  have habs := abs_add_le b.netExposure v
  have hlow := neg_abs_le (b.netExposure + v)
  have hhigh := le_abs_self (b.netExposure + v)
  have hv := abs_nonneg v
  have hbefore := abs_nonneg b.netExposure
  apply (yields_i64 (by omega) (by omega)).bind
  rintro net rfl
  apply (yields_i64 (by omega) (by omega)).bind
  intro after _
  apply (yields_i64 (by omega) (by omega)).bind
  intro before _
  exact yields_ok trivial

theorem decayed_yields (h : b.Roomy v slot) : Yields (b.decayed slot) fun y => 0 ≤ y ∧ y ≤ 255 := by
  obtain ⟨hslow, hfast⟩ := h.velocity
  obtain ⟨hpast, hnear⟩ := h.since
  apply (yields_i64 (by omega) (by omega)).bind
  rintro dt rfl
  split_ifs with hdt
  · apply (yields_i64 (by omega) (by omega)).bind
    rintro fade rfl
    apply (yields_i64 (by omega) (by omega)).bind
    rintro fade rfl
    generalize hpercent : max 10 (100 - (slot - b.lastTradeSlot) * 20) = percent
    have hfade : 0 ≤ percent ∧ percent ≤ 100 := by omega
    have hlow : 0 ≤ b.velocity * percent := mul_nonneg hslow hfade.1
    have hhigh : b.velocity * percent ≤ 255 * 100 := mul_le_mul hfast hfade.2 hfade.1 (by decide)
    apply (yields_i64 (by omega) (by omega)).bind
    rintro y rfl
    apply yields_ok
    rw [Int.tdiv_eq_ediv_of_nonneg hlow]
    omega
  · exact yields_ok ⟨hslow, hfast⟩

theorem urgency_yields (hsize : 0 ≤ size) (hfits : size * bps < 2 ^ 63) (pool : ℤ) :
    Yields (urgency size pool) fun y => y ≤ 50 := by
  rw [show (bps : ℤ) = 10000 from rfl] at hfits
  unfold urgency
  split_ifs with hsmall hpool
  · exact yields_ok (by decide)
  · apply (yields_i64 (by omega) (by omega)).bind
    intro scaled _
    exact yields_ok (min_le_left _ _)
  · exact yields_ok (by decide)

theorem hurried_yields (hvelocity : 0 ≤ velocity ∧ velocity ≤ 255) (hcontribution : contribution ≤ 50) :
    Yields (hurried velocity contribution) fun _ => True := by
  unfold hurried
  split_ifs with hurries
  · apply (yields_i64 (by omega) (by omega)).bind
    intro y _
    exact yields_ok trivial
  · exact yields_ok trivial

theorem momentum_yields (hmomentum : |b.momentumBps| ≤ bps) (hsize : 0 ≤ size) (hfits : size * bps < 2 ^ 63)
    (hlow : -2 ^ 63 ≤ total - size) (hhigh : total < 2 ^ 63) : Yields (b.momentum total size) fun _ => True := by
  have hbps : (bps : ℤ) = 10000 := rfl
  have hold := abs_le.mp hmomentum
  rw [hbps] at hfits hold
  have hlast : Yields (b.lastInterest total size) fun y => y = total ∨ y = total - size := by
    unfold lastInterest
    split_ifs with hfirst
    · exact yields_ok (.inl rfl)
    · obtain ⟨y, hy, hlast⟩ := yields_i64 hlow (show total - size < 2 ^ 63 by omega)
      exact ⟨y, hy, .inr hlast⟩
  apply hlast.bind
  intro last hlast
  have hchange : total - last = 0 ∨ total - last = size := by omega
  rw [hbps]
  split_ifs with hpos
  · apply (yields_i64 (by omega) (by omega)).bind
    rintro change rfl
    apply (yields_i64 (by omega) (by omega)).bind
    rintro change rfl
    apply (yields_i64 (by omega) (by omega)).bind
    rintro old rfl
    generalize hturn : max (-10000) (min 10000 (((total - last) * 10000).tdiv last)) = turn
    have hkept := Int.natAbs_tdiv_le_natAbs (b.momentumBps * 70) 100
    have hadded := Int.natAbs_tdiv_le_natAbs (turn * 30) 100
    exact ⟨_, i64_of_fits (by omega) (by omega), trivial⟩
  · exact yields_ok trivial

theorem recordActivity_yields (h : b.Roomy v slot) (exposure pool : ℤ) :
    Yields (b.recordActivity exposure v slot |v| pool) fun _ => True := by
  have hv := abs_nonneg v
  have hnet := h.net
  have htotal := h.total
  have hlow := neg_abs_le b.totalExposure
  have hhigh := le_abs_self b.totalExposure
  have hsum := abs_add_le b.netExposure v
  have hsumlow := neg_abs_le (b.netExposure + v)
  have hsumhigh := le_abs_self (b.netExposure + v)
  have hnetabs := abs_nonneg b.netExposure
  apply (classify_yields h exposure).bind
  rintro ⟨adding, hedging⟩ -
  apply (yields_i64 (by omega) (by omega)).bind
  rintro risk rfl
  apply (yields_i64 (by omega) (by omega)).bind
  rintro net rfl
  have hinterest : Yields (i64 (if adding then b.totalExposure + |v| else b.totalExposure - |v|)) fun y =>
      -2 ^ 63 ≤ (if adding then y else max 0 y) - |v| ∧ (if adding then y else max 0 y) < 2 ^ 63 := by
    split_ifs
    all_goals exact ⟨_, i64_of_fits (by omega) (by omega), by omega⟩
  apply hinterest.bind
  intro total htotal
  apply (decayed_yields h).bind
  intro velocity hvelocity
  apply (urgency_yields hv h.size pool).bind
  intro contribution hcontribution
  apply (hurried_yields hvelocity hcontribution).bind
  intro velocity _
  apply (momentum_yields h.momentum hv h.size htotal.1 htotal.2).bind
  intro momentum _
  exact yields_ok trivial

end Book

theorem Book.feeBps_unlevered {amount} (hamount : |amount| < 2 ^ 63) (tail collarBps conc exposure distance) :
    b.feeBps tail collarBps conc exposure amount 0 distance = .ok minFeeBps := by
  unfold feeBps
  split_ifs
  · rfl
  · have hlow := abs_nonneg amount
    rw [i64_of_fits (by omega) hamount]
    change (if wrapI64 ((|amount| * 0).tdiv 100) = 0 then _ else _) = _
    rw [if_pos (by rw [mul_zero]; decide)]

end

section

variable {e : Env} {k : Desk} {q : Quote} {pod : Stock} {price time : ℕ} {amount : ℤ}

theorem feeLeverage_eq (hpledged : 0 < pod.pledged) : feeLeverage pod price =
    if pod.exposure.natAbs * price * 100 < 2 ^ 64 then .ok (asI64 (pod.exposure.natAbs * price * 100 / pod.pledged))
    else .error .overflow := by
  unfold feeLeverage
  rw [if_pos hpledged]
  by_cases hvalue : pod.exposure.natAbs * price < 2 ^ 64
  · have hmul : mul (pod.exposure.natAbs) price = .ok (pod.exposure.natAbs * price) := if_pos hvalue
    rw [hmul, ok_bind]
    unfold mul checkedMul
    split_ifs
    · rfl
    · rfl
  · have hmul : mul (pod.exposure.natAbs) price = .error .overflow := if_neg hvalue
    rw [hmul, if_neg (by omega)]
    rfl

theorem percentLeverage_le (hpledged : 0 < pod.pledged) (price : ℕ) :
    percentLeverage pod price * priceScale ≤ pod.exposure.natAbs * price * 100 / pod.pledged := by
  unfold percentLeverage
  have hvalue : unitsValue pod.exposure.natAbs price * priceScale ≤ pod.exposure.natAbs * price := by
    unfold unitsValue sat sat128 priceScale
    omega
  rw [Nat.le_div_iff_mul_le hpledged]
  generalize unitsValue pod.exposure.natAbs price = value at hvalue
  calc value * 100 / pod.pledged * priceScale * pod.pledged
      = value * 100 / pod.pledged * pod.pledged * priceScale := Nat.mul_right_comm _ _ _
    _ ≤ value * 100 * priceScale := Nat.mul_le_mul_right _ (Nat.div_mul_le_self _ _)
    _ = value * priceScale * 100 := Nat.mul_right_comm _ _ _
    _ ≤ pod.exposure.natAbs * price * 100 := Nat.mul_le_mul_right _ hvalue

theorem feeLeverage_percent_iff (hpledged : 0 < pod.pledged) (hword : pod.pledged < 2 ^ 64) :
    feeLeverage pod price = .ok (percentLeverage pod price) ↔ pod.exposure.natAbs * price * 100 < pod.pledged := by
  rw [feeLeverage_eq hpledged]
  constructor
  · intro h
    split_ifs at h with hfits
    have hscaled := percentLeverage_le hpledged price
    have hq := Nat.div_le_self (pod.exposure.natAbs * price * 100) pod.pledged
    rw [← Nat.div_eq_zero_iff_lt hpledged]
    have heq := Except.ok.inj h
    unfold asI64 at heq
    unfold priceScale at hscaled
    split_ifs at heq
    · omega
    · omega
  · intro hsmall
    rw [if_pos (hsmall.trans hword)]
    have hscaled := percentLeverage_le hpledged price
    rw [Nat.div_eq_of_lt hsmall] at hscaled ⊢
    unfold priceScale at hscaled
    have hzero : percentLeverage pod price = 0 := by omega
    rw [hzero]
    rfl

theorem avoids_restore (exposure excess : ℕ) : Avoids .overflow (restore e k q amount exposure excess time) := by
  have hposted : Avoids .overflow (postVariationMargin e k q.oldValue exposure excess time) := by
    apply avoids_ite
    · intro _
      exact avoids_ok _ _
    · intro _
      exact avoids_require_bind (by decide) (avoids_ok _ _)
  apply hposted.bind
  intro posted _
  cases posted with
  | some => exact avoids_ok _ _
  | none =>
    apply avoids_ite
    · intro _
      exact avoids_error (by decide)
    · intro _
      exact avoids_ok _ _

theorem avoids_reinstateExposure (oldValue exposure gap byOwner) :
    Avoids .overflow (reinstateExposure e k oldValue exposure gap time byOwner) := by
  apply avoids_ite
  · intro _
    exact avoids_ok _ _
  · intro _
    exact avoids_require_bind (by decide) (avoids_ok _ _)

theorem avoids_buyLong : Avoids .overflow (buyLong e k q amount time) := by
  apply avoids_require_bind (by decide)
  exact avoids_require_bind (by decide) (avoids_ok _ _)

theorem avoids_repoLong : Avoids .overflow (repoLong e k q amount time) := by
  apply avoids_ite
  · intro _
    exact avoids_restore _ _
  intro _
  apply avoids_ite
  · intro _
    apply (avoids_reinstateExposure _ _ _ _).bind
    intro bought _
    cases bought with
    | some => exact avoids_ok _ _
    | none =>
      apply avoids_ite
      · intro _
        exact avoids_ok _ _
      · intro _
        exact avoids_error (by decide)
  · intro _
    apply avoids_require_bind (by decide)
    apply avoids_ite
    · intro _
      exact avoids_ok _ _
    · intro _
      exact avoids_buyLong

theorem avoids_issueShort : Avoids .overflow (issueShort e k q amount) := by
  apply avoids_ite
  · intro _
    exact avoids_require_bind (by decide) (avoids_ok _ _)
  · intro _
    exact avoids_ok _ _

theorem avoids_repoShort : Avoids .overflow (repoShort e k q amount time) := by
  apply avoids_ite
  · intro _
    exact avoids_restore _ _
  intro _
  apply avoids_ite
  · intro _
    apply avoids_ite
    · intro _
      exact avoids_restore _ _
    intro _
    apply avoids_ite
    · intro _
      exact avoids_ok _ _
    · intro _
      apply avoids_issueShort.bind
      intro _ _
      exact avoids_ok _ _
  · intro _
    exact avoids_ok _ _

theorem avoids_repo (d bank ticker) : Avoids .overflow (repo e d bank ticker amount) := by
  apply avoids_require_bind (by decide)
  apply (avoids_found (by decide)).bind
  intro pod _
  have hpod (k : Desk) : Avoids .overflow (repoPod e k amount) := by
    apply avoids_ite
    · intro _
      exact avoids_ok _ _
    · intro _
      apply Avoids.map
      apply avoids_ite
      · intro _
        exact avoids_repoLong
      · intro _
        exact avoids_repoShort
  apply (hpod _).bind
  intro o _
  exact avoids_ok _ _

end

section

variable {e : Env} {after : Actuary} {tail : Tail} {b : Book} {s : State} {vaults : Vaults} {signer : Pubkey}
  {ticker : Ticker} {amount leverage : ℤ} {pod : Stock} {bank : Depository}

section

variable (hpod : podOf (s.depositors signer).balances ticker = some pod)

include hpod

theorem avoids_handleOutTrade
    (hage : s.bank.age e.now = .ok bank) (hleverage : feeLeverage pod e.price = .ok leverage) :
    Avoids .overflow (handleOutTrade e after s vaults signer ticker amount) := by
  have htrade : Avoids .overflow (tradeOf e s signer ticker amount) := by
    unfold tradeOf
    dsimp only
    rw [hage, hpod, ok_bind, found, ok_bind, tradeFee, hleverage, ok_bind, ok_bind]
    apply (avoids_repo _ _ _).bind
    exact fun _ _ => avoids_ok _ _
  apply avoids_require_bind (by decide)
  apply avoids_require_bind (by decide)
  exact htrade.bind fun _ _ => avoids_ok _ _

theorem avoids_handleOutTradeBooked
    (hage : s.bank.age e.now = .ok bank) (hleverage : feeLeverage pod e.price = .ok 0) (hamount : |amount| < 2 ^ 63)
    (hroom : (b.found e).Roomy (unitsValueI amount e.price) (asI64 e.slot)) :
    Avoids .overflow (handleOutTradeBooked e after tail b s vaults signer ticker amount) := by
  apply avoids_require_bind (by decide)
  apply avoids_require_bind (by decide)
  rw [hage, ok_bind]
  apply (avoids_found (by decide)).bind
  intro before hbefore
  obtain rfl := Option.some.inj (hpod.symm.trans (found_eq_ok.mp hbefore))
  have hfee : tradeFeeOf e (b.found e) tail bank pod amount = .ok minFeeBps := by
    unfold tradeFeeOf
    rw [hleverage, ok_bind]
    exact Book.feeBps_unlevered hamount _ _ _ _ _
  have hv := abs_nonneg (unitsValueI amount e.price)
  have htotal := hroom.total
  have hnonneg := abs_nonneg (b.found e).totalExposure
  dsimp only
  rw [Book.found] at hfee
  rw [hfee, ok_bind]
  apply Avoids.bind
  · exact avoids_handleOutTrade hpod hage hleverage
  rintro ⟨s', paid⟩ _
  have hentered : Avoids .overflow (i64 |unitsValueI amount e.price|) := avoids_i64 (by omega) (by omega)
  apply hentered.bind
  intro size hsize
  obtain rfl := (i64_eq_ok.mp hsize).2
  apply ((Book.recordActivity_yields hroom _ _).avoids _).bind
  intro book _
  exact avoids_ok _ _

theorem handleOutTradeBooked_overflows
    (hpledged : 0 < pod.pledged) (hage : s.bank.age e.now = .ok bank) (horder : amount ≠ 0)
    (hopened : (s.depositors signer).opened) (hlarge : 2 ^ 64 ≤ pod.exposure.natAbs * e.price * 100) :
    handleOutTradeBooked e after tail b s vaults signer ticker amount = .error .overflow := by
  have hleverage : feeLeverage pod e.price = .error .overflow := by
    rw [feeLeverage_eq hpledged, if_neg (not_lt.mpr hlarge)]
  have hfee : tradeFeeOf e (b.found e) tail bank pod amount = .error .overflow := by
    unfold tradeFeeOf
    rw [hleverage]
    rfl
  unfold handleOutTradeBooked
  rw [require_of _ horder, ok_bind, require_of _ hopened, ok_bind, hage, ok_bind, hpod]
  dsimp only [found]
  rw [ok_bind]
  rw [Book.found] at hfee
  rw [hfee]
  rfl

end

/-- A trade has its fee computed from the leverage, without an overflow, just when that leverage is nothing. -/
theorem trade_leverage_iff (after : Actuary) (tail : Tail) (vaults : Vaults)
    (hpod : podOf (s.depositors signer).balances ticker = some pod) (hpledged : 0 < pod.pledged)
    (hword : pod.pledged < 2 ^ 64) (hage : s.bank.age e.now = .ok bank) (hamount : |amount| < 2 ^ 63)
    (hroom : (b.found e).Roomy (unitsValueI amount e.price) (asI64 e.slot)) :
    (feeLeverage pod e.price = .ok (percentLeverage pod e.price) ∧
        Avoids .overflow (handleOutTradeBooked e after tail b s vaults signer ticker amount) ↔
      pod.exposure.natAbs * e.price * 100 < pod.pledged) ∧
    (2 ^ 64 ≤ pod.exposure.natAbs * e.price * 100 → amount ≠ 0 → (s.depositors signer).opened →
      handleOutTradeBooked e after tail b s vaults signer ticker amount = .error .overflow) := by
  constructor
  · rw [feeLeverage_percent_iff hpledged hword]
    apply and_iff_left_of_imp
    intro hsmall
    have hleverage : feeLeverage pod e.price = .ok 0 := by
      rw [feeLeverage_eq hpledged, if_pos (hsmall.trans hword), Nat.div_eq_of_lt hsmall]
      rfl
    exact avoids_handleOutTradeBooked hpod hage hleverage hamount hroom
  · intro hlarge horder hopened
    exact handleOutTradeBooked_overflows hpod hpledged hage horder hopened hlarge

end

def clearBook : Book := ⟨0, 0, 0, 0, 1, 100 * 10 ^ 6, 1⟩

def largeLong : Stock := ⟨1, 100000 * 10 ^ 6, 2000 * 10 ^ 6, 9000, 1000, 0, 0, 200000 * 10 ^ 6, 0⟩

def orderAgainst (b : Book) (pod : Stock) (amount : ℤ) : Res (State × Book × ℕ) :=
  handleOutTradeBooked steadyPrice steadyActuary calmTail b (heldState pod) fullVault 1 pod.ticker amount

theorem trade_leverage_flat : (∃ r, orderAgainst clearBook flatPledge (10 ^ 6) = .ok r) ∧
    feeLeverage flatPledge steadyPrice.price = .ok (percentLeverage flatPledge steadyPrice.price) ∧
    Avoids .overflow (orderAgainst clearBook flatPledge (10 ^ 6)) := by
  obtain ⟨bank, hage⟩ : ∃ bank, (heldState flatPledge).bank.age steadyPrice.now = .ok bank := by decide +kernel
  have hpod : podOf ((heldState flatPledge).depositors 1).balances 2 = some flatPledge := by decide +kernel
  have hroom : (clearBook.found steadyPrice).Roomy (unitsValueI (10 ^ 6) steadyPrice.price) (asI64 steadyPrice.slot) :=
    ⟨by decide, by decide, by decide, by decide, by decide, by decide⟩
  obtain ⟨htradable, -⟩ := trade_leverage_iff (b := clearBook) steadyActuary calmTail fullVault hpod (by decide)
    (by decide) hage (by decide) hroom
  exact ⟨by decide +kernel, htradable.mpr (by decide)⟩

theorem large_long_locked :
    (feeLeverage heldLong steadyPrice.price = .ok 500000000 ∧ percentLeverage heldLong steadyPrice.price = 500) ∧
    (∀ amount ∈ [-10 ^ 6, -2000 * 10 ^ 6],
      (∃ r, repo steadyPrice ((heldState largeLong).depositors 1) (heldState largeLong).bank 1 amount =
        .ok r) ∧ orderAgainst clearBook largeLong amount = .error .overflow) := by decide +kernel

end QuidProtocol.Stay
