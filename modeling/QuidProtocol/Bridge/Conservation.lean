import QuidProtocol.Basket.Books

/-!
The two ends of the bridge (on Solana `bridge_home` and `handle_oft_receive`) with the messages between them, each
delivered once, in any order.
-/

namespace QuidProtocol.Bridge

open Lib

def sdToLocal : ℕ := 1000

def oftBridgeMsgLen : ℕ := 40

abbrev Pubkey := BitVec 256

inductive SvmErr
  | invalidAmount
  | invalidMessageFormat
  | invalidParameters
  | invalidMint
  | unauthorized
  | cpiFailed

structure TokenAccount where
  mint : Pubkey
  owner : Pubkey
  amount : ℕ

structure Solana where
  tokenProgram : Pubkey
  mint : Pubkey
  supply : ℕ
  accounts : Pubkey → Option TokenAccount

/-- The token program of the mint, which is not of this repository: what its two instructions do to the supply. -/
structure TokenProgram where
  mintTo : Solana → Pubkey → ℕ → Except SvmErr Solana
  burn : Solana → Pubkey → ℕ → Except SvmErr Solana
  mints : ∀ {s s' account amount}, mintTo s account amount = .ok s' → s'.supply = s.supply + amount
  burns : ∀ {s s' account amount}, burn s account amount = .ok s' → s'.supply + amount = s.supply

def amountSD (message : Bytes) : ℕ := ofBytesBE ((message.drop 32).take 8)

theorem amountSD_append {head} (hlen : head.length = 32) (amount : ℕ) :
    amountSD (head ++ toBytesBE 8 amount) = amount % 2 ^ 64 := by
  have htail : (toBytesBE 8 amount).take 8 = toBytesBE 8 amount := by rw [List.take_of_length_le (by simp)]
  unfold amountSD
  rw [List.drop_append_of_le_length hlen.ge, List.drop_of_length_le hlen.le, List.nil_append, htail,
    ofBytesBE_toBytesBE]
  norm_num

namespace Solana

variable (spl : TokenProgram)

/-- The mint instruction goes to whatever program the caller named. Only the mint's own token
program can change the supply; `answers` is whether another program returns. -/
def invokeMint (s : Solana) (tokenProg : Pubkey) (answers : Bool) (account : Pubkey)
    (amount : ℕ) : Except SvmErr Solana :=
  if tokenProg = s.tokenProgram then spl.mintTo s account amount
  else do
    require .cpiFailed (answers = true)
    .ok s

def wrapInOftFormat (sendTo : Bytes) (amountSd : ℕ) : Bytes := sendTo ++ toBytesBE 8 amountSd

def bridgeHome (s : Solana) (sent : Bool) (signer account : Pubkey) (amount : UInt64)
    (dest : BitVec 160) : Except SvmErr (Solana × Bytes) := do
  let held := s.accounts account
  require .invalidMint (held.any fun a => a.mint = s.mint)
  require .unauthorized (held.any fun a => a.owner = signer)
  let amountSd := amount.toNat / sdToLocal
  require .invalidAmount (0 < amountSd)
  let burnAmount := min (amountSd * sdToLocal) (2 ^ 64 - 1)
  let s ← spl.burn s account burnAmount
  require .cpiFailed (sent = true)
  .ok (s, wrapInOftFormat (toBytesBE 12 0 ++ toBytesBE 20 dest.toNat) amountSd)

def handleOftReceive (s : Solana) (message : Bytes) (mintInfo recipientInfo tokenProg : Pubkey)
    (answers : Bool) : Except SvmErr Solana := do
  require .invalidMessageFormat (oftBridgeMsgLen ≤ message.length)
  require .invalidParameters (s.mint ≠ 0)
  let recipient := ofBytesBE (message.take 32)
  let amountSd := ofBytesBE ((message.drop 32).take 8)
  require .invalidParameters (0 < amountSd)
  require .invalidMint (mintInfo = s.mint)
  require .invalidParameters ((s.accounts recipientInfo).any fun a => a.owner.toNat = recipient)
  let amountLocal ← checkedMul .invalidParameters 64 amountSd sdToLocal
  s.invokeMint spl tokenProg answers recipientInfo amountLocal

def lzReceive (s : Solana) (message : Bytes) (mintInfo recipientInfo tokenProg : Pubkey)
    (answers : Bool) : Except SvmErr Solana := do
  require .invalidMessageFormat (message.length = oftBridgeMsgLen)
  s.handleOftReceive spl message mintInfo recipientInfo tokenProg answers

variable {spl : TokenProgram} {s s' : Solana}

theorem bridgeHome_eq_ok {sent signer account amount dest message}
    (h : s.bridgeHome spl sent signer account amount dest = .ok (s', message)) :
    s'.supply + amountSD message * sdToLocal = s.supply := by
  simp only [bridgeHome, bind_eq_ok] at h
  obtain ⟨_, -, _, -, _, -, t, hburn, _, -, hok⟩ := h
  cases hok
  have hword := amount.toNat_lt
  have hsupply := spl.burns hburn
  have hamount : amountSD (wrapInOftFormat (toBytesBE 12 0 ++ toBytesBE 20 dest.toNat)
      (amount.toNat / sdToLocal)) = amount.toNat / sdToLocal := by
    unfold wrapInOftFormat
    rw [amountSD_append (by simp), Nat.mod_eq_of_lt]
    exact (Nat.div_le_self _ _).trans_lt hword
  have hrounded := Nat.div_mul_le_self amount.toNat sdToLocal
  rw [hamount]
  omega

theorem lzReceive_eq_ok {message mintInfo recipientInfo tokenProg answers}
    (h : s.lzReceive spl message mintInfo recipientInfo tokenProg answers = .ok s') :
    0 < amountSD message ∧ s'.supply = s.supply +
      (if tokenProg = s.tokenProgram then amountSD message * sdToLocal else 0) := by
  simp only [lzReceive, handleOftReceive, bind_eq_ok, require_eq_ok] at h
  obtain ⟨_, -, _, -, _, -, _, hpos, _, -, _, -, amountLocal, hmul, hinvoke⟩ := h
  obtain ⟨-, rfl⟩ := checkedMul_eq_ok.mp hmul
  refine ⟨hpos, ?_⟩
  unfold invokeMint at hinvoke
  split_ifs at hinvoke ⊢ with hprogram
  · exact spl.mints hinvoke
  · obtain ⟨-, hok⟩ := of_require hinvoke
    rw [← Except.ok.inj hok, add_zero]

end Solana

open Basket

structure World where
  basket : State
  solana : Solana
  toSolana : List Bytes
  toEthereum : List Bytes

inductive Fault
  | basket (e : Basket.Err)
  | solana (e : SvmErr)
  | noMessage

inductive Move
  | bridgeToSolana (lz : Messaging) (sender : Address) (to32 : BitVec 256) (amount : ℕ)
  | receiveOnEthereum (i : ℕ)
  | receiveOnSolana (i : ℕ) (mintInfo recipientInfo tokenProg : Pubkey) (answers : Bool)
  | bridgeHome (sent : Bool) (signer account : Pubkey) (amount : UInt64) (dest : BitVec 160)
  | wait (seconds : ℕ)

def pick (messages : List Bytes) (i : ℕ) : Except Fault (Bytes × List Bytes) :=
  match messages[i]? with
  | some message => .ok (message, messages.eraseIdx i)
  | none => .error .noMessage

def World.exec (spl : TokenProgram) (w : World) : Move → Except Fault World
  | .bridgeToSolana lz sender to32 amount => do
    let (basket, message) ← (w.basket.bridgeToSolana lz sender to32 amount).mapError .basket
    .ok { w with basket, toSolana := w.toSolana ++ [message] }
  | .receiveOnEthereum i => do
    let (message, toEthereum) ← pick w.toEthereum i
    let basket ← (w.basket.lzReceive solanaEid message).mapError .basket
    .ok { w with basket, toEthereum }
  | .receiveOnSolana i mintInfo recipientInfo tokenProg answers => do
    let (message, toSolana) ← pick w.toSolana i
    let solana ← (w.solana.lzReceive spl message mintInfo recipientInfo tokenProg answers).mapError .solana
    .ok { w with solana, toSolana }
  | .bridgeHome sent signer account amount dest => do
    let (solana, message) ← (w.solana.bridgeHome spl sent signer account amount dest).mapError .solana
    .ok { w with solana, toEthereum := w.toEthereum ++ [message] }
  | .wait seconds => do
    let basket ← (w.basket.exec (.wait seconds)).mapError .basket
    .ok { w with basket }

def inFlight (messages : List Bytes) : ℕ := (messages.map amountSD).sum

def World.total (w : World) : ℚ :=
  (w.basket.erc20.totalSupply : ℚ) / sdRate + (w.solana.supply : ℚ) / sdToLocal +
    inFlight w.toSolana + inFlight w.toEthereum

/-- What `bridgeToSolana` burns is a whole number of units that fits the message, and what
arrives on Solana is handed the token program of the mint. -/
def Exact (w : World) : Move → Prop
  | .bridgeToSolana _ sender _ amount => ∀ imm, w.basket.immatureBalanceOf sender = .ok imm →
      sdRate ∣ min (amount / sdRate * sdRate) (w.basket.erc20.balances sender - imm) ∧
        min (amount / sdRate * sdRate) (w.basket.erc20.balances sender - imm) / sdRate < 2 ^ 64
  | .receiveOnSolana _ _ _ tokenProg _ => tokenProg = w.solana.tokenProgram
  | _ => True

instance (w : World) (m : Move) : Decidable (Exact w m) := by cases m <;> unfold Exact <;> infer_instance

theorem inFlight_append (messages : List Bytes) (message : Bytes) :
    inFlight (messages ++ [message]) = inFlight messages + amountSD message := by
  simp [inFlight]

theorem pick_inFlight {messages left message i}
    (h : pick messages i = .ok (message, left)) : inFlight messages = inFlight left + amountSD message := by
  unfold pick at h
  cases hget : messages[i]? with
  | none => simp [hget] at h
  | some =>
    simp only [hget] at h
    cases h
    obtain ⟨hlt, rfl⟩ := List.getElem?_eq_some_iff.mp hget
    have hperm := (List.getElem_cons_eraseIdx_perm hlt).map amountSD
    unfold inFlight
    rw [← hperm.sum_eq, List.map_cons, List.sum_cons, add_comm]

section Steps

variable {spl : TokenProgram} {w w' : World}

theorem rate_pos : (0 : ℚ) < sdRate := by
  unfold sdRate
  norm_num

theorem local_pos : (0 : ℚ) < sdToLocal := by
  unfold sdToLocal
  norm_num

theorem quotient_eq_iff (burned : ℕ) : (burned : ℚ) / sdRate = (burned / sdRate % 2 ^ 64 : ℕ) ↔
      sdRate ∣ burned ∧ burned / sdRate < 2 ^ 64 := by
  have hrate : 0 < sdRate := by decide
  rw [div_eq_iff rate_pos.ne']
  constructor
  · intro h
    have hnat : burned = burned / sdRate % 2 ^ 64 * sdRate := by exact_mod_cast h
    have hdvd : sdRate ∣ burned := ⟨_, by rw [mul_comm]; exact hnat⟩
    refine ⟨hdvd, ?_⟩
    have hquot : burned / sdRate = burned / sdRate % 2 ^ 64 := by
      conv_lhs => rw [hnat]
      exact Nat.mul_div_cancel _ hrate
    rw [hquot]
    exact Nat.mod_lt _ (by norm_num)
  · rintro ⟨hdvd, hlt⟩
    rw [Nat.mod_eq_of_lt hlt]
    exact_mod_cast (Nat.div_mul_cancel hdvd).symm

theorem lzReceive_supply {s s' : State} {srcEid : ℕ} {message : Bytes} (hk : s.Kept)
    (h : s.lzReceive srcEid message = .ok s') :
    s'.erc20.totalSupply = s.erc20.totalSupply + amountSD message * sdRate := by
  simp only [State.lzReceive, bind_eq_ok, require_eq_ok, not_or] at h
  obtain ⟨_, -, _, -, _, ⟨hdest, -⟩, hmint⟩ := h
  have hsupply := (hk.minted (by omega) hmint).supply
  rwa [if_neg hdest, add_zero] at hsupply

theorem total_send {lz sender to32 amount}
    (hm : Matured w.basket) (h : w.exec spl (.bridgeToSolana lz sender to32 amount) = .ok w') :
    w'.total = w.total ↔ Exact w (.bridgeToSolana lz sender to32 amount) := by
  simp only [World.exec, bind_eq_ok, mapError_eq_ok, Prod.exists] at h
  obtain ⟨basket, message, hbridge, hok⟩ := h
  cases hok
  obtain ⟨burned, -, hmove, hsent, hmessage⟩ := State.bridgeToSolana_eq_ok hbridge
  obtain ⟨δ, hmoved⟩ := State.transferHelper_eq_ok hm.booked.kept hmove
  have hholder : sender ≠ 0 := by
    rintro rfl
    have hle := hmoved.le
    rw [hm.booked.kept.backed.outside] at hle
    apply hsent
    rw [Nat.le_zero.mp hle, Nat.zero_div]
  have hrow := hm.booked.rows sender hholder
  have himm := hm.immatureBalanceOf_eq hrow
  have hburned := hm.burned_eq hrow himm hmove
  have hexact : Exact w (.bridgeToSolana lz sender to32 amount) ↔ sdRate ∣ burned ∧ burned / sdRate < 2 ^ 64 := by
    simp only [Exact, himm, Except.ok.injEq, forall_eq', ← hburned]
  have hamount : amountSD message = burned / sdRate % 2 ^ 64 := by rw [hmessage, amountSD_append (by simp), Nat.mod_mod]
  have hsupply : (basket.erc20.totalSupply : ℚ) = w.basket.erc20.totalSupply - burned := by
    rw [← (burns_of_transferHelper hm.booked.kept hmove).2.1]
    push_cast
    ring
  rw [hexact, ← quotient_eq_iff]
  simp only [World.total, inFlight_append, hamount, hsupply, sub_div, Nat.cast_add]
  constructor
  all_goals
    intro h
    linarith

theorem total_receiveOnEthereum {i : ℕ} (hm : Matured w.basket)
    (h : w.exec spl (.receiveOnEthereum i) = .ok w') : w'.total = w.total := by
  simp only [World.exec, bind_eq_ok, mapError_eq_ok, Prod.exists] at h
  obtain ⟨message, left, hpick, basket, hreceive, hok⟩ := h
  cases hok
  have hrate := rate_pos.ne'
  simp only [World.total, pick_inFlight hpick, lzReceive_supply hm.booked.kept hreceive]
  push_cast
  rw [add_div, mul_div_assoc, div_self hrate]
  ring

theorem total_receiveOnSolana {i mintInfo recipientInfo tokenProg answers}
    (h : w.exec spl (.receiveOnSolana i mintInfo recipientInfo tokenProg answers) = .ok w') :
    w'.total = w.total ↔ tokenProg = w.solana.tokenProgram := by
  simp only [World.exec, bind_eq_ok, mapError_eq_ok, Prod.exists] at h
  obtain ⟨message, left, hpick, solana, hreceive, hok⟩ := h
  cases hok
  obtain ⟨hpos, hsupply⟩ := Solana.lzReceive_eq_ok hreceive
  have hlocal := local_pos.ne'
  have hlost : (0 : ℚ) < amountSD message := by exact_mod_cast hpos
  simp only [World.total, pick_inFlight hpick, hsupply]
  by_cases hprogram : tokenProg = w.solana.tokenProgram
  · rw [if_pos hprogram]
    push_cast
    rw [add_div, mul_div_assoc, div_self hlocal]
    exact iff_of_true (by ring) hprogram
  · rw [if_neg hprogram, add_zero]
    push_cast
    refine iff_of_false ?_ hprogram
    intro heq
    linarith

theorem total_bridgeHome {sent signer account amount dest}
    (h : w.exec spl (.bridgeHome sent signer account amount dest) = .ok w') : w'.total = w.total := by
  simp only [World.exec, bind_eq_ok, mapError_eq_ok, Prod.exists] at h
  obtain ⟨solana, message, hhome, hok⟩ := h
  cases hok
  have hlocal := local_pos.ne'
  simp only [World.total, inFlight_append, ← Solana.bridgeHome_eq_ok hhome]
  push_cast
  rw [add_div, mul_div_assoc, div_self hlocal]
  ring

theorem total_wait {seconds} (h : w.exec spl (.wait seconds) = .ok w') : w'.total = w.total := by
  simp only [World.exec, State.exec, bind_eq_ok, mapError_eq_ok] at h
  obtain ⟨basket, ⟨_, -, hbasket⟩, hok⟩ := h
  cases hbasket
  cases hok
  rfl

theorem total_eq_iff {m} (hm : Matured w.basket) (h : w.exec spl m = .ok w') : w'.total = w.total ↔ Exact w m := by
  cases m with
  | bridgeToSolana => exact total_send hm h
  | receiveOnEthereum => exact iff_of_true (total_receiveOnEthereum hm h) trivial
  | receiveOnSolana => exact total_receiveOnSolana h
  | bridgeHome => exact iff_of_true (total_bridgeHome h) trivial
  | wait => exact iff_of_true (total_wait h) trivial

theorem basket_of_move {m} (h : w.exec spl m = .ok w') : w.basket = w'.basket ∨ ∃ c, w.basket.exec c = .ok w'.basket := by
  cases m with
  | bridgeToSolana lz sender to32 amount =>
    simp only [World.exec, bind_eq_ok, mapError_eq_ok, Prod.exists] at h
    obtain ⟨basket, message, hbridge, hok⟩ := h
    cases hok
    refine Or.inr ⟨.bridgeToSolana lz sender to32 amount, ?_⟩
    simp only [State.exec, hbridge, ok_bind]
  | receiveOnEthereum =>
    simp only [World.exec, bind_eq_ok, mapError_eq_ok, Prod.exists] at h
    obtain ⟨message, left, -, basket, hreceive, hok⟩ := h
    cases hok
    exact Or.inr ⟨.lzReceive solanaEid message, hreceive⟩
  | receiveOnSolana =>
    simp only [World.exec, bind_eq_ok, mapError_eq_ok, Prod.exists] at h
    obtain ⟨_, _, -, _, -, hok⟩ := h
    cases hok
    exact Or.inl rfl
  | bridgeHome =>
    simp only [World.exec, bind_eq_ok, mapError_eq_ok, Prod.exists] at h
    obtain ⟨_, _, -, hok⟩ := h
    cases hok
    exact Or.inl rfl
  | wait seconds =>
    simp only [World.exec, bind_eq_ok, mapError_eq_ok] at h
    obtain ⟨basket, hwait, hok⟩ := h
    cases hok
    exact Or.inr ⟨.wait seconds, hwait⟩

theorem matured_of_move {m} (hm : Matured w.basket) (h : w.exec spl m = .ok w') : Matured w'.basket := by
  rcases basket_of_move h with heq | ⟨c, hexec⟩
  · rwa [← heq]
  · exact matured_of_exec hm hexec

end Steps

/-- What there is of QD on both chains and in flight stays the same exactly if every move of the run is exact. -/
theorem bridge_conserves_iff {owner aux range : Address} {now : ℕ} {calls : List Call}
    {spl : TokenProgram} {start w : World} {moves : List Move} (hnow : now < uintBound)
    (hstart : runAll State.exec (State.created owner aux range now) calls = .ok start.basket)
    (hrun : runAll (World.exec spl) start moves = .ok w) :
    EveryState (World.exec spl) (fun v => v.total = start.total) start moves ↔ EveryStep (World.exec spl) Exact start moves := by
  have hm := matured_of_run hnow hstart
  apply everyState_iff (fun v => Matured v.basket ∧ v.total = start.total)
    (fun _ hv => hv.2) _ _ ⟨hm, rfl⟩ hrun
  · intro v m v' hv hexact h
    exact ⟨matured_of_move hv.1 h, ((total_eq_iff hv.1 h).mpr hexact).trans hv.2⟩
  · intro v m v' hv hexact h heq
    exact hexact ((total_eq_iff hv.1 h).mp (heq.trans hv.2.symm))

def plainProgram : TokenProgram where
  mintTo s account amount := do
    let held ← found .cpiFailed (s.accounts account)
    .ok { s with
      supply := s.supply + amount
      accounts := Function.update s.accounts account (some { held with amount := held.amount + amount }) }
  burn s account amount := do
    let held ← found .cpiFailed (s.accounts account)
    require .cpiFailed (amount ≤ held.amount ∧ amount ≤ s.supply)
    .ok { s with
      supply := s.supply - amount
      accounts := Function.update s.accounts account (some { held with amount := held.amount - amount }) }
  mints h := by
    obtain ⟨held, -, h⟩ := of_bind h
    cases h
    rfl
  burns h := by
    obtain ⟨held, -, h⟩ := of_bind h
    obtain ⟨hle, h⟩ := of_require h
    cases h
    exact Nat.sub_add_cancel hle.2

def plainSolana : Solana where
  tokenProgram := 7
  mint := 8
  supply := 0
  accounts := Function.update (fun _ => none) 9 (some ⟨8, 10, 0⟩)

def plainMessaging : Messaging := ⟨1, 1, true, true⟩

def unitCalls : List Call :=
  [.mint plainMetrics plainStable 101 2 (3 * 10 ^ 12) 0, .wait (2 * monthLength)]

def roundTrip : List Move :=
  [.bridgeToSolana plainMessaging 2 10 (2 * 10 ^ 12 + 5), .receiveOnSolana 0 8 9 7 true,
    .bridgeHome true 10 9 1999 2,
    .receiveOnEthereum 0]

theorem roundTrip_conserves : ∃ start w, runAll State.exec plainCreated unitCalls = .ok start.basket ∧
    runAll (World.exec plainProgram) start roundTrip = .ok w ∧
    EveryState (World.exec plainProgram) (fun v => v.total = start.total) start roundTrip := by
  obtain ⟨basket, hstart, hsteps, w, hrun⟩ : ∃ basket, runAll State.exec plainCreated unitCalls = .ok basket ∧
      EveryStep (World.exec plainProgram) Exact ⟨basket, plainSolana, [], []⟩ roundTrip ∧
      ∃ w, runAll (World.exec plainProgram) ⟨basket, plainSolana, [], []⟩ roundTrip = .ok w := by
    decide +kernel
  let start : World := ⟨basket, plainSolana, [], []⟩
  have hreached : runAll State.exec plainCreated unitCalls = .ok start.basket := hstart
  exact ⟨start, w, hreached, hrun, (bridge_conserves_iff (by decide) hreached hrun).mpr hsteps⟩

theorem dust_is_lost : ∃ start w, runAll State.exec plainCreated
      [.mint plainMetrics plainStable 101 2 (3 * 10 ^ 12 / 2) 0, .wait (2 * monthLength),
        .mint plainMetrics plainStable 101 2 (10 ^ 12) 0] = .ok start.basket ∧ runAll (World.exec plainProgram) start
      [.bridgeToSolana plainMessaging 2 10 (2 * 10 ^ 12)] = .ok w ∧ start.total = 5 / 2 ∧ w.total = 2 := by
  obtain ⟨basket, hstart, hbefore, w, hrun, hafter, hsolana, hsent, hhome⟩ : ∃ basket, runAll State.exec plainCreated
      [.mint plainMetrics plainStable 101 2 (3 * 10 ^ 12 / 2) 0, .wait (2 * monthLength),
        .mint plainMetrics plainStable 101 2 (10 ^ 12) 0] = .ok basket ∧
      basket.erc20.totalSupply = 5 * 10 ^ 12 / 2 ∧
      ∃ w, runAll (World.exec plainProgram) ⟨basket, plainSolana, [], []⟩
          [.bridgeToSolana plainMessaging 2 10 (2 * 10 ^ 12)] = .ok w ∧
        w.basket.erc20.totalSupply = 10 ^ 12 ∧ w.solana.supply = 0 ∧ inFlight w.toSolana = 1 ∧
        inFlight w.toEthereum = 0 := by
    decide +kernel
  refine ⟨⟨basket, plainSolana, [], []⟩, w, hstart, hrun, ?_, ?_⟩
  · simp only [World.total, hbefore]
    norm_num [plainSolana, inFlight, sdRate, sdToLocal]
  · simp only [World.total, hafter, hsolana, hsent, hhome]
    norm_num [sdRate, sdToLocal]

end QuidProtocol.Bridge
