import QuidProtocol.Stay.Principal

/-!
The book of a ticker, which trades and liquidations write, and its momentum along the trades that `record_activity`
enters.
-/

namespace QuidProtocol.Stay

open Lib

def i64 (x : ℤ) : Res ℤ := if -2 ^ 63 ≤ x ∧ x < 2 ^ 63 then .ok x else .error .overflow

def wrapI64 (x : ℤ) : ℤ := asI64 (asU64 x)

def minFeeBps : ℤ := 4

def levThreshold : ℤ := 300

def maxLeveragePct : ℤ := 1000

def minHoldSecs : ℤ := 3600

structure Book where
  netExposure : ℤ
  totalExposure : ℤ
  velocity : ℤ
  momentumBps : ℤ
  lastTradeSlot : ℤ
  lastPrice : ℤ
  lastPriceSlot : ℤ

structure Tail where
  sigma : ℤ
  jumpRegime : ℤ
  hazardBps : ℤ → ℤ
  lgdBps : ℤ → ℤ

namespace Book

def scale (price old v : ℤ) : ℤ := satI64 ((v * price).tdiv old)

variable (b : Book)

def updatePrice (price slot : ℤ) : Book :=
  if b.lastPrice = 0 then { b with lastPrice := price, lastPriceSlot := slot, lastTradeSlot := slot }
  else
    let moved : Bool := 0 < b.lastPrice ∧ 0 < price ∧ price ≠ b.lastPrice
    let dt := max 1 (slot - b.lastPriceSlot)
    { b with
      netExposure := if moved then scale price b.lastPrice b.netExposure else b.netExposure
      totalExposure := if moved then max 0 (scale price b.lastPrice b.totalExposure) else b.totalExposure
      velocity := max 0 (b.velocity - dt.tdiv 500 * 10)
      lastPrice := price
      lastPriceSlot := slot }

def isAdding (exposure amount : ℤ) : Bool := exposure = 0 ∨ (0 < exposure ∧ 0 < amount) ∨ (exposure < 0 ∧ amount < 0)

def classify (exposure amount : ℤ) : Res (Bool × Bool) := do
  let net ← i64 (b.netExposure + amount)
  let after ← i64 |net|
  let before ← i64 |b.netExposure|
  .ok (isAdding exposure amount, after < before)

def imbalanceBps : ℤ :=
  if b.totalExposure = 0 then 0 else wrapI64 ((b.netExposure * bps).tdiv b.totalExposure)

def urgency (size pool : ℤ) : Res ℤ :=
  if size < max 1 (pool.tdiv 1000) then .ok 0
  else if 0 < pool then do
    let scaled ← i64 (size * 50)
    .ok (min 50 (scaled.tdiv pool))
  else .ok 5

def decayed (slot : ℤ) : Res ℤ := do
  let dt ← i64 (slot - b.lastTradeSlot)
  if 0 < dt then do
    let fade ← i64 (dt * 20)
    let fade ← i64 (100 - fade)
    let velocity ← i64 (b.velocity * max 10 fade)
    .ok (velocity.tdiv 100)
  else .ok b.velocity

def hurried (velocity contribution : ℤ) : Res ℤ :=
  if 0 < contribution then do
    let velocity ← i64 (velocity + contribution)
    .ok (min 255 velocity)
  else .ok velocity

def lastInterest (total size : ℤ) : Res ℤ :=
  if b.lastTradeSlot = 0 then .ok total else i64 (total - size)

def momentum (total size : ℤ) : Res ℤ := do
  let last ← b.lastInterest total size
  if 0 < last then do
    let change ← i64 (total - last)
    let change ← i64 (change * bps)
    let old ← i64 (b.momentumBps * 70)
    let new : ℤ := max (-bps : ℤ) (min (bps : ℤ) (change.tdiv last)) * 30
    i64 (old.tdiv 100 + new.tdiv 100)
  else .ok b.momentumBps

def recordActivity (exposure valueDelta slot size pool : ℤ) : Res Book := do
  let (adding, _) ← b.classify exposure valueDelta
  let risk ← i64 |valueDelta|
  let netExposure ← i64 (b.netExposure + valueDelta)
  let total ← i64 (if adding then b.totalExposure + risk else b.totalExposure - risk)
  let totalExposure := if adding then total else max 0 total
  let velocity ← b.decayed slot
  let contribution ← urgency size pool
  let velocity ← hurried velocity contribution
  let momentumBps ← b.momentum totalExposure risk
  .ok { b with netExposure, totalExposure, velocity, momentumBps, lastTradeSlot := slot }

def compoundFactor (tail : Tail) (exposure amount lev : ℤ) : Res ℤ := do
  let (adding, hedging) ← b.classify exposure amount
  let excess ← i64 (lev - levThreshold)
  let excess := max 0 excess
  let imbalance ← i64 |b.imbalanceBps|
  let leaning ← i64 (excess * min (bps : ℤ) imbalance)
  let jumping ← i64 (if adding then excess * tail.jumpRegime else 0)
  .ok (if adding then
      if hedging then min 200 (100 + max 3 (leaning.tdiv (bps * 30) + jumping.tdiv 600))
      else min 300 (100 + max 10 (leaning.tdiv (bps * 15) + jumping.tdiv 400))
    else if hedging then max 70 (100 - leaning.tdiv (bps * 50))
    else min 150 (100 + leaning.tdiv (bps * 40)))

def sqrtSteps (n : ℤ) : ℕ → ℤ → ℤ
  | 0, x => x
  | steps + 1, x =>
    let y := (x + n.tdiv (max 1 x)).tdiv 2
    if y < x then sqrtSteps n steps y else x

def sqrtFrac (n : ℤ) : ℤ :=
  let y := (n + 1).tdiv 2
  if y < n then sqrtSteps n 64 y else n

def momentumMult (adding : Bool) : ℤ :=
  if b.momentumBps < 0 then
    let cascade := satI64 (-b.momentumBps)
    if adding then 100 + min 150 (cascade.tdiv 15) else max 70 (100 - min 30 (cascade.tdiv 333))
  else 100

def baseFee (tail : Tail) (collarBps : ℕ) (adding : Bool) (conc lev tradeSize distanceBps : ℤ) : Res ℤ := do
  let room ← i64 (b.totalExposure + tradeSize)
  let scaled ← i64 (tradeSize * bps)
  let root ← i64 (sqrtFrac (min (bps : ℤ) (scaled.tdiv (max 1 room))) * 50)
  let imbalance ← i64 |b.imbalanceBps|
  let square ← i64 (imbalance * imbalance)
  let spread ← i64 (tail.sigma * (100 + root.tdiv 100))
  let spread ← i64 (spread * (100 + square.tdiv (bps * 50)))
  let intensity := tail.hazardBps distanceBps
  let hedge ← i64 (if adding then tail.sigma * lev else 0)
  let levFee := (satI64 (hedge.tdiv (maxLeveragePct * 10) * (bps + intensity))).tdiv bps
  let gap := wrapI64 ((intensity * tail.lgdBps collarBps * minHoldSecs).tdiv (bps * secondsPerYear))
  let urgent ← i64 (b.velocity * b.velocity)
  i64 (spread.tdiv (10000 * 150) + levFee + max 2 (conc.tdiv 300) + gap + urgent.tdiv 1000)

def feeBps (tail : Tail) (collarBps : ℕ) (conc exposure amount lev distanceBps : ℤ) : Res ℤ :=
  if tail.sigma = 0 then .ok minFeeBps
  else do
    let size ← i64 |amount|
    let tradeSize := wrapI64 ((size * lev).tdiv 100)
    if tradeSize = 0 then .ok minFeeBps
    else do
      let (adding, _) ← b.classify exposure amount
      let base ← b.baseFee tail collarBps adding conc lev tradeSize distanceBps
      let factor ← b.compoundFactor tail exposure amount lev
      let scaled ← i64 (base * factor)
      let total ← i64 (scaled.tdiv 100 * b.momentumMult adding)
      let cap ← i64 (tail.sigma * lev)
      .ok (max minFeeBps (min (max 200 (cap.tdiv maxLeveragePct)) (total.tdiv 100)))

end Book

variable (e : Env) (book : Book)

def Env.reading : Env :=
  { e with actuary := { e.actuary with netExposure := book.netExposure } }

def entryDistance (pod : Stock) (leverage : ℤ) : ℤ :=
  let value := pod.valueAt e.price
  let notional := collarNotional value pod.pledged
  let barrier := sat (notional + sat (notional * e.actuary.collarBps leverage) / bps)
  if 0 < value then (min ((barrier - value) * bps / value) i64Max : ℕ) else 10000

def tradeFeeOf (tail : Tail) (bank : Depository) (pod : Stock) (amount : ℤ) : Res ℤ := do
  let leverage ← feeLeverage pod e.price
  book.feeBps tail (e.actuary.collarBps leverage) bank.utilisationBps pod.exposure amount leverage
    (entryDistance e pod leverage)

/-- `handle_out` on an exposure, with the book. The value of what was asked for is entered in it, and the reserve of
the ticker goes by the book after that. -/
def handleOutTradeBooked (after : Actuary) (tail : Tail) (book : Book) (s : State) (v : Vaults)
    (signer : Pubkey) (ticker : Ticker) (amount : ℤ) : Res (State × Book × ℕ) := do
  let customer := s.depositors signer
  require .invalidAmount (amount ≠ 0)
  require .invalidUser customer.opened
  let bank ← s.bank.age e.now
  let book := book.updatePrice (asI64 e.price) (asI64 e.slot)
  let before ← found .depositFirst (podOf customer.balances ticker)
  let fee ← tradeFeeOf e book tail bank before amount
  let e := e.reading book
  let e := { e with actuary := { e.actuary with feeBps := fun _ _ _ _ _ => fee.toNat } }
  let valueDelta := unitsValueI amount e.price
  let (s', paid) ← handleOutTrade e { after with netExposure := book.netExposure + valueDelta } s v signer ticker amount
  let size ← i64 |valueDelta|
  let book ← book.recordActivity before.exposure valueDelta (asI64 e.slot) size (asI64 s'.bank.totalDeposits)
  .ok (s', book, paid)

def recorded (o : Outcome) : ℤ := if o.delta < 0 then -(o.delta.natAbs - commissionOf o.delta : ℕ) else o.delta

def amortiseBooked (after : Actuary) (book : Book) (s : State) (borrower liquidator : Pubkey)
    (ticker : Ticker) (prices : List ℕ) : Res (State × Book) := do
  let book := book.updatePrice (asI64 e.price) (asI64 e.slot)
  let e := e.reading book
  let (traded, o) ← crankOf e s borrower ticker
  let s' ← amortise e { after with netExposure := book.netExposure + recorded o } s borrower liquidator ticker prices
  let (_, bank) ← bookLiquidation o traded { o.desk.bank with yieldPool := o.desk.bank.yieldPool + o.interest } prices
    e.now
  let book ← book.recordActivity o.desk.pod.exposure (recorded o) (asI64 e.slot) |recorded o| (asI64 bank.totalDeposits)
  .ok (s', book)

def Visit.reading (v : Visit) (before after : Book) : Visit :=
  { v with actuary := { v.actuary with netExposure := before.netExposure }
           after := { v.after with netExposure := after.netExposure } }

def visitOutcome (ticker : Ticker) (x : Sweep) (v : Visit) : Option Outcome :=
  if (x.depositors v.key).opened then (sweptOutcome e ticker x v).toOption else none

def sweepOneBooked (ticker : Ticker) (x : Sweep × Book) (v : Visit) : Res (Sweep × Book) :=
  match visitOutcome e ticker x.1 (v.reading x.2 x.2) with
  | some o =>
    if o.delta < 0 then do
      let credited := (o.delta.natAbs - commissionOf o.delta : ℕ)
      let book ← x.2.recordActivity 0 (-credited) (asI64 e.slot) credited (asI64 x.1.bank.totalDeposits)
      .ok (sweepOne e ticker x.1 (v.reading x.2 book), book)
    else .ok (sweepOne e ticker x.1 (v.reading x.2 x.2), x.2)
  | none => .ok (sweepOne e ticker x.1 (v.reading x.2 x.2), x.2)

def Book.swept (s : State) (book : Book) (ticker : Ticker) (visits : List Visit) : Res (Sweep × Book) :=
  runAll (sweepOneBooked e ticker) (Sweep.start e s ticker, book.updatePrice (asI64 e.price) (asI64 e.slot)) visits

section

variable {x y : ℤ} {b b' : Book} {tail : Tail} {exposure amount slot size pool : ℤ}

theorem i64_eq_ok : i64 x = .ok y ↔ (-2 ^ 63 ≤ x ∧ x < 2 ^ 63) ∧ x = y := by
  unfold i64
  split_ifs with hfits
  · rw [Except.ok.injEq, and_iff_right hfits]
  · exact iff_of_false (fun h => nomatch h) fun h => hfits h.1

theorem i64_of_fits (hlow : -2 ^ 63 ≤ x) (hhigh : x < 2 ^ 63) : i64 x = .ok x := if_pos ⟨hlow, hhigh⟩

theorem avoids_i64 (hlow : -2 ^ 63 ≤ x) (hhigh : x < 2 ^ 63) : Avoids .overflow (i64 x) := by
  rw [i64_of_fits hlow hhigh]
  exact avoids_ok _ _

theorem Book.classify_eq {adding hedging} (h : b.classify exposure amount = .ok (adding, hedging)) :
    adding = isAdding exposure amount := by
  obtain ⟨net, -, after, -, before, -, h⟩ := of_bind₃ h
  exact (ok_pair_inj h).1.symm

theorem Book.recordActivity_eq {valueDelta} (h : b.recordActivity exposure valueDelta slot size pool = .ok b') :
    b'.netExposure = b.netExposure + valueDelta ∧
      b'.totalExposure = (if isAdding exposure valueDelta then b.totalExposure + |valueDelta|
        else max 0 (b.totalExposure - |valueDelta|)) ∧
      b.momentum b'.totalExposure |valueDelta| = .ok b'.momentumBps := by
  obtain ⟨⟨adding, hedging⟩, hclassify, h⟩ := of_bind h
  obtain rfl := classify_eq hclassify
  obtain ⟨risk, hrisk, net, hnet, total, htotal, decayed, -, h⟩ := of_bind₄ h
  obtain ⟨contribution, -, velocity, -, momentum, hmomentum, h⟩ := of_bind₃ h
  cases h
  rw [(i64_eq_ok.mp hrisk).2]
  refine ⟨(i64_eq_ok.mp hnet).2.symm, ?_, hmomentum⟩
  rw [← (i64_eq_ok.mp htotal).2]
  dsimp only
  split_ifs
  · rfl
  · rfl

end

structure Activity where
  exposure : ℤ
  valueDelta : ℤ
  slot : ℤ
  size : ℤ
  pool : ℤ

namespace Book

def record (b : Book) (t : Activity) : Res Book := b.recordActivity t.exposure t.valueDelta t.slot t.size t.pool

/-- A trade that lowers the open interest leaves no more than seventy percent of the momentum, and one that takes half
of it or more, from no momentum, leaves a negative one. -/
def SignKept (b : Book) (t : Activity) : Prop :=
  ∀ b', b.record t = .ok b' → 0 < b.totalExposure → b'.totalExposure < b.totalExposure →
    b'.momentumBps ≤ (b.momentumBps * 70).tdiv 100 ∧
      (b.momentumBps = 0 → b.lastTradeSlot ≠ 0 → 2 * b'.totalExposure ≤ b.totalExposure → 0 < b'.totalExposure →
        b'.momentumBps < 0)

def NotRaising (b : Book) (t : Activity) : Prop :=
  0 < b.totalExposure → isAdding t.exposure t.valueDelta = false → t.valueDelta ≠ 0 →
    if b.lastTradeSlot = 0 then |t.valueDelta| < b.totalExposure ∨ b.momentumBps ≤ 0
    else if 2 * |t.valueDelta| < b.totalExposure then
      |t.valueDelta| * bps < 4 * (b.totalExposure - 2 * |t.valueDelta|)
    else b.momentumBps < 0 ∨ b.momentumBps = 0 ∧ b.totalExposure ≤ |t.valueDelta|
  deriving Decidable

section

variable {b b' : Book} {t : Activity} {total size m : ℤ}

theorem le_faded_iff : m ≤ (m * 70).tdiv 100 ↔ m ≤ 0 := by
  rw [Int.tdiv_eq_ediv, show Int.sign 100 = 1 from rfl]
  split_ifs <;> omega

theorem momentum_eq (h : b.momentum total size = .ok m) : ∃ last,
    last = (if b.lastTradeSlot = 0 then total else total - size) ∧
      (last ≤ 0 → m = b.momentumBps) ∧ (0 < last → m = (b.momentumBps * 70).tdiv 100 +
        (max (-bps : ℤ) (min (bps : ℤ) (((total - last) * bps).tdiv last)) * 30).tdiv 100) := by
  obtain ⟨last, hlast, h⟩ := of_bind h
  refine ⟨last, ?_, ?_, ?_⟩
  · unfold lastInterest at hlast
    split_ifs at hlast ⊢
    · exact ok_inj hlast
    · exact (i64_eq_ok.mp hlast).2.symm
  · intro hnone
    rw [if_neg (not_lt.mpr hnone)] at h
    exact ok_inj h
  · intro hsome
    rw [if_pos hsome] at h
    obtain ⟨change, hchange, scaled, hscaled, old, hold, h⟩ := of_bind₃ h
    rw [← (i64_eq_ok.mp h).2, ← (i64_eq_ok.mp hold).2, ← (i64_eq_ok.mp hscaled).2, ← (i64_eq_ok.mp hchange).2]

/-- The interest before a trade is taken to be `|value_delta|` below the interest after it, also where it was above. -/
theorem signKept_iff (h : b.record t = .ok b') : b.SignKept t ↔ b.NotRaising t := by
  obtain ⟨-, htotal, hmomentum⟩ := recordActivity_eq h
  obtain ⟨last, hlast, hkept, hfaded⟩ := momentum_eq hmomentum
  have hsign : b.SignKept t ↔ (0 < b.totalExposure → b'.totalExposure < b.totalExposure →
      b'.momentumBps ≤ (b.momentumBps * 70).tdiv 100 ∧ (b.momentumBps = 0 → b.lastTradeSlot ≠ 0 →
        2 * b'.totalExposure ≤ b.totalExposure → 0 < b'.totalExposure → b'.momentumBps < 0)) := by
    refine ⟨fun hall => hall b' h, fun hone c hc => ?_⟩
    obtain rfl := ok_unique h hc
    exact hone
  have hv := abs_nonneg t.valueDelta
  have hzero := abs_pos (a := t.valueDelta)
  have hfade := le_faded_iff (m := b.momentumBps)
  rw [hsign]
  unfold NotRaising
  refine forall_congr' fun hpos => ?_
  cases hadding : isAdding t.exposure t.valueDelta with
  | true =>
    rw [hadding, if_pos rfl] at htotal
    exact iff_of_true (fun hlt => absurd hlt (by omega)) (fun hfalse => absurd hfalse.symm Bool.false_ne_true)
  | false =>
    rw [hadding, if_neg Bool.false_ne_true] at htotal
    have hlower : b'.totalExposure < b.totalExposure ↔ t.valueDelta ≠ 0 := by
      rw [← hzero]
      omega
    rw [hlower, forall_prop_of_true rfl]
    refine forall_congr' fun hmoved => ?_
    split_ifs with hfirst hhalf
    · rw [if_pos hfirst] at hlast
      by_cases hleft : 0 < last
      · have heq := hfaded hleft
        rw [hlast, sub_self, zero_mul, Int.zero_tdiv] at heq
        have hnew : (max (-bps : ℤ) (min (bps : ℤ) 0) * 30).tdiv 100 = 0 := by decide
        omega
      · have heq := hkept (not_lt.mp hleft)
        omega
    · rw [if_neg hfirst] at hlast
      have hrest : last = b.totalExposure - 2 * |t.valueDelta| := by omega
      have heq := hfaded (by omega)
      rw [show b'.totalExposure - last = |t.valueDelta| by omega, hrest] at heq
      have hscaled := mul_nonneg hv (Nat.cast_nonneg (α := ℤ) bps)
      rw [Int.tdiv_eq_ediv_of_nonneg hscaled] at heq
      have hchange := Int.ediv_nonneg hscaled (b := b.totalExposure - 2 * |t.valueDelta|) (by omega)
      have hsmall := Int.ediv_lt_iff_lt_mul (a := |t.valueDelta| * bps) (b := 4)
        (show 0 < b.totalExposure - 2 * |t.valueDelta| by omega)
      rw [← hsmall]
      generalize |t.valueDelta| * (bps : ℤ) / (b.totalExposure - 2 * |t.valueDelta|) = change at *
      have hnew := Int.tdiv_eq_ediv_of_nonneg (a := max (-10000) (min 10000 change) * 30) (b := 100) (by omega)
      rw [show (bps : ℤ) = 10000 from rfl, hnew] at heq
      omega
    · rw [if_neg hfirst] at hlast
      have heq := hkept (by omega)
      omega

theorem momentum_sign_iff (b b' : Book) (ts : List Activity) (hrun : runAll record b ts = .ok b') :
    EveryStep record SignKept b ts ↔ EveryStep record NotRaising b ts := by
  apply everyStep_congr (I := fun _ => True) (fun _ _ _ _ _ => trivial) _ trivial hrun
  intro b t b' _ h
  exact signKept_iff h

end

def unpriced : Book := ⟨0, 0, 0, 0, 0, 1, 1⟩

def bought (value : ℤ) : Activity := ⟨0, value, 5, value, 10 ^ 9⟩

def sold (value : ℤ) : Activity := ⟨10, -value, 6, value, 10 ^ 9⟩

theorem momentum_sign_small : (∃ b', runAll record unpriced [bought (10 ^ 6), sold 100] = .ok b' ∧
      b'.totalExposure = 999900) ∧ EveryStep record SignKept unpriced [bought (10 ^ 6), sold 100] := by
  obtain ⟨b', hrun, htotal⟩ : ∃ b', runAll record unpriced [bought (10 ^ 6), sold 100] = .ok b' ∧
      b'.totalExposure = 999900 := by
    decide +kernel
  exact ⟨⟨b', hrun, htotal⟩, (momentum_sign_iff _ _ _ hrun).mpr (by decide +kernel)⟩

theorem sale_raises_momentum : ∃ b, unpriced.record (bought 1000) = .ok b ∧ b.totalExposure = 1000 ∧
    b.momentumBps = 0 ∧ b.lastTradeSlot = 5 ∧
    (∃ b', b.record (sold 100) = .ok b' ∧ b'.totalExposure = 900 ∧ b'.momentumBps = 375) ∧
    ∃ b', b.record (sold 600) = .ok b' ∧ b'.totalExposure = 400 ∧ b'.momentumBps = 0 := by
  decide +kernel

end Book

end QuidProtocol.Stay
