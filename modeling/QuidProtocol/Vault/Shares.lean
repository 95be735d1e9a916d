import QuidProtocol.Lib.Ledger
import QuidProtocol.Vault.Steps

/-!
The shares of the vault as a book: plain, levered, and buffers.
-/

namespace QuidProtocol.Vault

open Lib Function
open Basket (Address)

structure Book where
  plain : Address → ℕ
  lev : Address → ℕ
  buf : Address → ℕ

namespace Book

def deposit (b : Book) (lp : Address) (n : ℕ) : Book := { b with plain := update b.plain lp (b.plain lp + n) }

def withdraw (b : Book) (lp : Address) (n : ℕ) : Book := { b with plain := update b.plain lp (b.plain lp - n) }

def relever (b : Book) (lp : Address) (lev buf : ℕ) : Book :=
  { b with lev := update b.lev lp lev, buf := update b.buf lp buf }

def clear (b : Book) (lp : Address) : Book := (b.withdraw lp (b.plain lp)).relever lp 0 0

def move (b : Book) (source dest : Address) (n : ℕ) : Book := (b.withdraw source n).deposit dest n

def resized (b : Book) (lp : Address) (full : Bool) (n : ℕ) : Book :=
  if full then b.clear lp else b.withdraw lp (min n (b.plain lp))

noncomputable def total (b : Book) : ℕ := ∑ a, b.plain a + ∑ a, b.lev a

noncomputable def buffer (b : Book) : ℕ := ∑ a, b.buf a

variable (b : Book) (lp : Address) (n k : ℕ)

theorem deposit_zero : b.deposit lp 0 = b := by simp [deposit]

theorem withdraw_zero : b.withdraw lp 0 = b := by simp [withdraw]

theorem move_zero (dest : Address) : b.move lp dest 0 = b := by rw [move, withdraw_zero, deposit_zero]

theorem deposit_deposit : (b.deposit lp n).deposit lp k = b.deposit lp (n + k) := by simp [deposit, add_assoc]

theorem relever_self : b.relever lp (b.lev lp) (b.buf lp) = b := by simp [relever]

theorem total_deposit : (b.deposit lp n).total = b.total + n := by
  have h := sum_update_add (f := b.plain) (a := lp) (show b.plain lp + n + 0 = b.plain lp + n from rfl)
  simp only [total, deposit]
  omega

theorem total_withdraw (h : n ≤ b.plain lp) : (b.withdraw lp n).total + n = b.total := by
  have h := sum_update_add (f := b.plain) (a := lp) (show b.plain lp - n + n = b.plain lp + 0 by omega)
  simp only [total, withdraw]
  omega

theorem total_relever : (b.relever lp n k).total + b.lev lp = b.total + n := by
  have h := sum_update_add (f := b.lev) (a := lp) (add_comm n (b.lev lp))
  simp only [total, relever]
  omega

theorem buffer_relever : (b.relever lp n k).buffer + b.buf lp = b.buffer + k :=
  sum_update_add (f := b.buf) (a := lp) (add_comm k (b.buf lp))

theorem total_clear : (b.clear lp).total + (b.plain lp + b.lev lp) = b.total := by
  have hrest := total_relever (b.withdraw lp (b.plain lp)) lp 0 0
  have hplain := total_withdraw b lp (b.plain lp) le_rfl
  have hlev : (b.withdraw lp (b.plain lp)).lev lp = b.lev lp := rfl
  simp only [clear]
  omega

theorem buffer_clear : (b.clear lp).buffer + b.buf lp = b.buffer := buffer_relever (b.withdraw lp (b.plain lp)) lp 0 0

theorem total_move {source dest} (h : n ≤ b.plain source) : (b.move source dest n).total = b.total := by
  rw [move, total_deposit]
  exact total_withdraw b source n h

end Book

structure Reads (v : State) (b : Book) (shares buffer : ℕ) : Prop where
  pooled : ∀ a, (v.autoManaged a).pooled = b.plain a + b.lev a
  levPooled : v.levPooled = b.lev
  levBuf : v.levBuf = b.buf
  lpShares : v.lpShares = shares
  totalBuffer : v.totalBuffer = buffer

abbrev Holds (v : State) (b : Book) : Prop := Reads v b b.total b.buffer

section

variable {env : Env} {v v' : State} {b : Book} {shares buffer : ℕ} {lp : Address} {d : Deposit} {p n k : ℕ}

section

variable (h : Reads v b shares buffer)

include h

theorem Reads.rangeOf (lp : Address) : rangeOf v lp = b.plain lp := by
  rw [Vault.rangeOf, plainNet, h.pooled, h.levPooled, Nat.add_sub_cancel]

theorem Reads.withCore (c : Core) : Reads { v with core := c } b shares buffer :=
  ⟨h.pooled, h.levPooled, h.levBuf, h.lpShares, h.totalBuffer⟩

theorem Reads.setDeposit {b'} (hlev : b'.lev = b.lev)
    (hbuf : b'.buf = b.buf) (hplain : ∀ a, a ≠ lp → b'.plain a = b.plain a)
    (hd : d.pooled = b'.plain lp + b.lev lp) : Reads (v.setDeposit lp d) b' shares buffer where
  pooled a := by
    by_cases ha : a = lp
    · rw [ha, State.setDeposit_same, hd, hlev]
    · rw [State.setDeposit_other v d ha, h.pooled, hplain a ha, hlev]
  levPooled := h.levPooled.trans hlev.symm
  levBuf := h.levBuf.trans hbuf.symm
  lpShares := h.lpShares
  totalBuffer := h.totalBuffer

theorem Reads.rebooked (hd : d.pooled = (v.autoManaged lp).pooled) : Reads (v.setDeposit lp d) b shares buffer := by
  apply h.setDeposit rfl rfl (fun a _ => rfl)
  rw [hd, h.pooled]

theorem Reads.deposit (hd : d.pooled = (v.autoManaged lp).pooled + n) :
    Reads (v.setDeposit lp d) (b.deposit lp n) shares buffer := by
  apply h.setDeposit
  · rfl
  · rfl
  · intro a ha
    simp [Book.deposit, ha]
  · rw [hd, h.pooled]
    simp only [Book.deposit, update_self]
    omega

theorem Reads.withdraw (hn : n ≤ b.plain lp)
    (hd : d.pooled + n = (v.autoManaged lp).pooled) : Reads (v.setDeposit lp d) (b.withdraw lp n) shares buffer := by
  apply h.setDeposit
  · rfl
  · rfl
  · intro a ha
    simp [Book.withdraw, ha]
  · have hp := h.pooled lp
    simp only [Book.withdraw, update_self]
    omega

theorem Reads.rebalance (hok : rebalance env v = .ok (p, v')) : Reads v' b shares buffer := by
  obtain ⟨-, x, y, rfl⟩ := rebalance_eq hok
  exact ⟨h.pooled, h.levPooled, h.levBuf, h.lpShares, h.totalBuffer⟩

theorem Reads.settleLp {payTo} (hok : settleLp env v lp payTo = .ok v') : Reads v' b shares buffer := by
  obtain ⟨d, hd, rfl⟩ := settleLp_eq hok
  exact h.rebooked hd

theorem Reads.rebook (hok : rebook v lp = .ok v') : Reads v' b shares buffer := by
  obtain ⟨d, hd, rfl⟩ := rebook_eq hok
  exact h.rebooked hd

theorem Reads.addPooled (hok : addPooled v lp n = .ok v') : Reads v' (b.deposit lp n) shares buffer := by
  obtain ⟨d, hd, rfl⟩ := addPooled_eq hok
  exact h.deposit hd

theorem Reads.pairLegs (hok : pairLegs env v n k lp = .ok v') : Reads v' b shares buffer := by
  obtain ⟨tok, -, usd, -, core, -, hok⟩ := of_bind₃ hok
  cases hok
  exact h.withCore core

theorem Reads.pairRegLeg (hok : pairRegLeg env v lp n k = .ok v') : Reads v' (b.deposit lp n) shares buffer := by
  unfold Vault.pairRegLeg at hok
  split_ifs at hok with hn
  · cases hok
    rwa [hn, Book.deposit_zero]
  · obtain ⟨w, hw, hok⟩ := of_bind hok
    exact (h.addPooled hw).pairLegs hok

theorem Reads.addUnpaired (hok : addUnpaired v lp n = .ok v') : Reads v' (b.deposit lp n) shares buffer := by
  unfold Vault.addUnpaired at hok
  split_ifs at hok with hn
  · cases hok
    rwa [hn, Book.deposit_zero]
  · exact h.addPooled hok

end

theorem Holds.requestDeposit (h : Holds v b) (hlp : lp ≠ 0)
    (hok : requestDeposit env v lp n = .ok v') : Holds v' (b.deposit lp n) := by
  obtain ⟨h0, rfl⟩ | ⟨px, v1, v2, price, usd, btc, v3, v4, h1, h2, -, h3, hle, h4, rfl⟩ := requestDeposit_eq hok
  · obtain rfl : n = 0 := h0.resolve_right hlp
    rwa [Book.deposit_zero]
  · have hr := (((h.rebalance h1).settleLp h2).pairRegLeg h3).addUnpaired h4
    rw [Book.deposit_deposit, Nat.add_sub_of_le hle] at hr
    refine ⟨hr.pooled, hr.levPooled, hr.levBuf, ?_, hr.totalBuffer⟩
    rw [Book.total_deposit, hr.lpShares]

section

variable (h : Reads v b shares buffer)

include h

theorem Reads.relever {w} (hother : ∀ a, a ≠ lp → (w.autoManaged a).pooled = (v.autoManaged a).pooled)
    (hlp : (w.autoManaged lp).pooled = b.plain lp + n) (hlev : w.levPooled = update v.levPooled lp n)
    (hbuf : w.levBuf = update v.levBuf lp k)
    (hshares : w.lpShares = v.lpShares) (hbuffer : w.totalBuffer = v.totalBuffer) :
    Reads w (b.relever lp n k) shares buffer where
  pooled a := by
    by_cases ha : a = lp
    · rw [ha, hlp]
      simp [Book.relever]
    · rw [hother a ha, h.pooled]
      simp [Book.relever, ha]
  levPooled := by rw [hlev, h.levPooled]; rfl
  levBuf := by rw [hbuf, h.levBuf]; rfl
  lpShares := hshares.trans h.lpShares
  totalBuffer := hbuffer.trans h.totalBuffer

theorem Reads.levBurnAll {burned} (hok : levBurnAll env v lp = .ok (burned, v')) :
    Reads v' (b.relever lp 0 0) shares buffer ∧ burned = ⟨b.lev lp, b.buf lp⟩ := by
  have hp := h.pooled lp
  have hlev : v.levPooled lp = b.lev lp := congrFun h.levPooled lp
  have hbuf : v.levBuf lp = b.buf lp := congrFun h.levBuf lp
  -- the levered part of the shares is never more than all of them
  have hmin : min (v.levPooled lp) (v.autoManaged lp).pooled = b.lev lp := by omega
  obtain ⟨h0, rfl, rfl⟩ | ⟨usdOut, core, -, -, -, rfl, hw⟩ := levBurnAll_eq hmin.symm hok
  · have hlev0 : b.lev lp = 0 := by omega
    have hbuf0 : b.buf lp = 0 := by omega
    refine ⟨?_, by rw [hlev0, hbuf0]⟩
    have hsame := b.relever_self lp
    rw [hlev0, hbuf0] at hsame
    rw [hsame]
    exact ⟨h.pooled, h.levPooled, h.levBuf, h.lpShares, h.totalBuffer⟩
  · rw [hbuf]
    refine ⟨Reads.rebook ?_ hw, rfl⟩
    apply h.relever
    · intro a ha
      rw [State.unlevered, State.setDeposit_other _ _ ha]
    · rw [State.unlevered, State.setDeposit_same]
      dsimp only
      omega
    · simp only [State.unlevered, State.setDeposit]
      rw [hmin, hlev, Nat.sub_self]
    all_goals rfl

theorem Reads.lever {w usd} (hw : Vault.addPooled v lp n = .ok w)
    (hok : Vault.pairLegs env { w with levPooled := update w.levPooled lp (w.levPooled lp + n) }
      n usd lp = .ok v') :
    Reads v' (b.relever lp (b.lev lp + n) (b.buf lp)) shares buffer := by
  obtain ⟨d, hd, rfl⟩ := addPooled_eq hw
  refine Reads.pairLegs ?_ hok
  have hp := h.pooled lp
  apply h.relever
  · intro a ha
    exact congrArg Deposit.pooled (State.setDeposit_other v d ha)
  · rw [State.setDeposit_same, hd, hp, add_assoc]
  · rw [← h.levPooled]
    rfl
  · rw [← h.levBuf, update_eq_self]
    rfl
  · rfl
  · rfl

theorem Reads.levAddNet {price added} (hok : levAddNet env v lp n price = .ok (added, v')) :
    Reads v' (b.relever lp (b.lev lp + added) (b.buf lp)) shares buffer := by
  obtain ⟨rfl, rfl⟩ | ⟨netUsd, w, -, hw, hu⟩ := levAddNet_eq hok
  · rwa [add_zero, Book.relever_self]
  · exact h.lever hw hu

theorem Reads.levAddBufOver {gross price added} (hok : levAddBufOver env v lp gross n price = .ok (added, v')) :
    Reads v' (b.relever lp (b.lev lp) (b.buf lp + added)) shares buffer := by
  obtain ⟨rfl, rfl⟩ | ⟨bufUsd, w, -, hw, hu⟩ := levAddBufOver_eq hok
  · rwa [add_zero, Book.relever_self]
  · refine Reads.pairLegs (Reads.rebook ?_ hw) hu
    apply h.relever
    · intro a ha
      rfl
    · exact h.pooled lp
    · rw [← h.levPooled, update_eq_self]
    · rw [← h.levBuf]
    · rfl
    · rfl

theorem Reads.levAddGross {added} (hok : levAddGross env v lp n = .ok (added, v')) :
    Reads v' (b.relever lp (b.lev lp + added.net) (b.buf lp + added.buf)) shares buffer := by
  obtain ⟨rfl, rfl⟩ | ⟨price, w, hw, hu⟩ := levAddGross_eq hok
  · rwa [add_zero, add_zero, Book.relever_self]
  · have hr := (h.levAddNet hw).levAddBufOver hu
    simpa [Book.relever] using hr

end

theorem Reads.applyDeltas {added} (h : Reads v (b.relever lp added.net added.buf) b.total b.buffer)
    (hok : applyDeltas v added ⟨b.lev lp, b.buf lp⟩ = .ok v') : Holds v' (b.relever lp added.net added.buf) := by
  obtain ⟨hnet, hle, rfl⟩ := applyDeltas_eq hok
  have htotal := b.total_relever lp added.net added.buf
  have hbuf := b.buffer_relever lp added.net added.buf
  refine ⟨h.pooled, h.levPooled, h.levBuf, ?_, ?_⟩
  · have := h.lpShares
    dsimp only
    omega
  · have := h.totalBuffer
    dsimp only
    omega

theorem Book.relever_added (b : Book) (lp : Address) (added : LevDelta) :
    (b.relever lp 0 0).relever lp ((b.relever lp 0 0).lev lp + added.net)
      ((b.relever lp 0 0).buf lp + added.buf) = b.relever lp added.net added.buf := by
  simp [Book.relever]

theorem Holds.syncLev (h : Holds v b) (hok : syncLev env v lp = .ok v') : ∃ n k, Holds v' (b.relever lp n k) := by
  obtain ⟨-, rfl⟩ | ⟨px, v1, v2, burned, v3, added, v4, -, h1, h2, h3, h4, hok⟩ := syncLev_eq hok
  · refine ⟨b.lev lp, b.buf lp, ?_⟩
    rwa [Book.relever_self]
  · obtain ⟨hburn, rfl⟩ := ((h.rebalance h1).settleLp h2).levBurnAll h3
    have hr := hburn.levAddGross h4
    rw [Book.relever_added] at hr
    exact ⟨added.net, added.buf, hr.applyDeltas hok⟩

theorem Reads.resetFees (h : Reads v b shares buffer) (cleared : Bool) :
    Reads (resetFees v cleared) b shares buffer := by
  unfold Vault.resetFees
  split_ifs
  · exact ⟨h.pooled, h.levPooled, h.levBuf, h.lpShares, h.totalBuffer⟩
  · exact h

theorem Holds.resizeBtcLpTail {a} (h : Holds v b)
    (hn : a.full = false → a.shrinkSats ≤ b.plain a.lpEth) (hok : resizeBtcLpTail env v a = .ok v') :
    Holds v' (if a.full then b.clear a.lpEth else b.withdraw a.lpEth a.shrinkSats) := by
  obtain ⟨w, core, d, htail⟩ := resizeBtcLpTail_eq hok
  have hr := Reads.settleLp h htail.settled
  have hp := hr.pooled a.lpEth
  have hbuf : w.levBuf a.lpEth = b.buf a.lpEth := congrFun hr.levBuf a.lpEth
  have hd' := finishDeposit_pooled htail.record
  have hS := hr.lpShares
  have hB := hr.totalBuffer
  rw [htail.eq]
  apply Reads.resetFees
  unfold State.resized
  cases hfull : a.full with
  | false =>
    have hle' := hn hfull
    simp only [hfull, sharesRemoved, clearLevered, Bool.false_eq_true, if_false] at hd' ⊢
    have hkept : Reads { w with
        core
        lpShares := w.lpShares - a.shrinkSats
        totalBuffer := w.totalBuffer - 0 } b (b.total - a.shrinkSats) b.buffer :=
      ⟨hr.pooled, hr.levPooled, hr.levBuf, by rw [← hS], by rw [← hB]; rfl⟩
    have hend := hkept.withdraw (d := d) hle' (by dsimp only; omega)
    have htotal := b.total_withdraw a.lpEth a.shrinkSats hle'
    refine ⟨hend.pooled, hend.levPooled, hend.levBuf, ?_, hend.totalBuffer⟩
    rw [hend.lpShares]
    omega
  | true =>
    simp only [hfull, sharesRemoved, clearLevered, if_true] at hd' ⊢
    have htotal := b.total_clear a.lpEth
    have hbuffer := b.buffer_clear a.lpEth
    have hempty : d.pooled = 0 := by omega
    refine ⟨fun x => ?_, ?_, ?_, ?_, ?_⟩
    · by_cases hx : x = a.lpEth
      · subst hx
        simp [State.setDeposit, Book.clear, Book.withdraw, Book.relever, hempty]
      · simp [State.setDeposit, Book.clear, Book.withdraw, Book.relever, hx, hr.pooled]
    · simp [State.setDeposit, Book.clear, Book.withdraw, Book.relever, hr.levPooled]
    · simp [State.setDeposit, Book.clear, Book.withdraw, Book.relever, hr.levBuf]
    all_goals
      simp only [State.setDeposit]
      omega

theorem Holds.resizeBody {a} (h : Holds v b) (hok : resizeBody env v a = .ok v') :
    Holds v' (b.resized a.lpEth a.full a.shrinkSats) := by
  unfold Vault.resizeBody at hok
  rw [Reads.rangeOf h] at hok
  dsimp only at hok
  unfold Book.resized
  split_ifs at hok with hempty hnothing hfull
  · cases hok
    obtain ⟨hplain, hlev, hbuf⟩ := hempty
    rw [congrFun h.levPooled] at hlev
    rw [congrFun h.levBuf] at hbuf
    have hself := b.relever_self a.lpEth
    rw [hlev, hbuf] at hself
    split_ifs
    · rwa [Book.clear, hplain, Book.withdraw_zero, hself]
    · rwa [hplain, Nat.min_zero, Book.withdraw_zero]
  · cases hok
    simpa [hnothing.1, hnothing.2, Book.withdraw_zero] using h
  · obtain ⟨⟨px, w⟩, hw, hok⟩ := of_bind hok
    have hr : Holds w b := Reads.rebalance h hw
    have hend := hr.resizeBtcLpTail (by simp [hfull]) hok
    simpa [hfull] using hend
  · obtain ⟨⟨px, w⟩, hw, hok⟩ := of_bind hok
    have hr : Holds w b := Reads.rebalance h hw
    have hend := hr.resizeBtcLpTail (fun _ => Nat.min_le_right _ _) hok
    simpa [hfull] using hend

theorem Holds.resizeLp {full payout exactUsd} (h : Holds v b)
    (hok : resizeLp env v lp n payout full exactUsd = .ok v') :
    ∃ lev buf, Holds v' ((b.relever lp lev buf).resized lp full n) := by
  obtain ⟨w, hw, ⟨delev, core⟩, -, hok⟩ := of_bind₂ hok
  obtain ⟨lev, buf, hr⟩ := h.syncLev hw
  refine ⟨lev, buf, ?_⟩
  exact Holds.resizeBody (hr.withCore core) hok

theorem Reads.rebalanceFor (h : Reads v b shares buffer) (hok : rebalanceFor env v n = .ok v') :
    Reads v' b shares buffer := by
  unfold Vault.rebalanceFor at hok
  split_ifs at hok
  · obtain ⟨⟨px, w⟩, hw, hok⟩ := of_bind hok
    cases hok
    exact h.rebalance hw
  · cases hok
    exact h

theorem Reads.settleReceiver (h : Reads v b shares buffer) (hok : settleReceiver env v lp = .ok v') :
    Reads v' b shares buffer := by
  unfold Vault.settleReceiver at hok
  split_ifs at hok
  · exact h.settleLp hok
  · cases hok
    exact h

theorem Reads.moveShares {source dest} (h : Reads v b shares buffer)
    (hn : n ≤ b.plain source) (hok : moveShares v source dest n = .ok v') :
    Reads v' (b.move source dest n) shares buffer := by
  obtain ⟨hle, hok⟩ := of_checkedSub hok
  obtain ⟨-, hok⟩ := of_checkedAdd hok
  obtain ⟨w, hw, hlast⟩ := of_bind hok
  have htaken := h.withdraw (d := { v.autoManaged source with pooled := (v.autoManaged source).pooled - n })
    hn (Nat.sub_add_cancel hle)
  exact ((htaken.deposit rfl).rebook hw).rebook hlast

theorem Holds.transferShares {source dest} (h : Holds v b)
    (hok : transferShares env v source dest n = .ok v') : n ≤ b.plain source ∧ Holds v' (b.move source dest n) := by
  obtain ⟨w, hw, hok⟩ := of_bind hok
  obtain ⟨hreq, -, hok⟩ := of_require₂ hok
  have hr := Reads.rebalanceFor h hw
  have hle := hreq
  rw [hr.rangeOf] at hle
  refine ⟨hle, ?_⟩
  split_ifs at hok with h0
  · cases hok
    rwa [h0, Book.move_zero]
  · obtain ⟨v1, h1, v2, h2, hok⟩ := of_bind₂ hok
    have hend := ((hr.settleLp h1).settleReceiver h2).moveShares hle hok
    have htotal : (b.move source dest n).total = b.total := b.total_move n hle
    exact ⟨hend.pooled, hend.levPooled, hend.levBuf, hend.lpShares.trans htotal.symm, hend.totalBuffer⟩

theorem Holds.collect (h : Holds v b) (hok : collect env v lp = .ok v') : ∃ n k, Holds v' (b.relever lp n k) := by
  obtain ⟨⟨px, v1⟩, h1, v2, h2, hok⟩ := of_bind₂ hok
  have hr : Holds v1 b := Reads.rebalance h h1
  obtain ⟨n, k, hs⟩ := hr.syncLev h2
  exact ⟨n, k, hs.settleLp hok⟩

section

variable (h : Reads v b shares buffer)

include h

theorem Reads.recordFee {usd native} (hok : recordFee v usd native = .ok v') : Reads v' b shares buffer := by
  obtain ⟨x, y, z, rfl⟩ := recordFee_eq hok
  exact ⟨h.pooled, h.levPooled, h.levBuf, h.lpShares, h.totalBuffer⟩

theorem Reads.creditSwapIn {seller token consumed}
    (hok : creditSwapIn env v seller n token k = .ok (consumed, v')) : Reads v' b shares buffer := by
  obtain ⟨-, rfl⟩ | ⟨px, v1, amount, v2, delivered, used, core, h1, h2, -, -, -, rfl⟩ := creditSwapIn_eq hok
  · exact h
  · obtain ⟨usd, native, hfee⟩ := retainNative_eq h2
    exact ((h.rebalance h1).recordFee hfee).withCore core

theorem Reads.creditSwapOut {swapper token sats usd6}
    (hok : creditSwapOut env v swapper token n k = .ok (sats, usd6, v')) : Reads v' b shares buffer := by
  obtain ⟨-, -, rfl⟩ | ⟨deposited, amount6, px, v1, amount, v2, used, core, -, -, h1, h2, -, -, rfl⟩ :=
    creditSwapOut_eq hok
  · exact h
  · obtain ⟨-, usd, hfee⟩ := retainUsd_eq h2
    exact ((h.rebalance h1).recordFee hfee).withCore core

theorem Reads.swapTo {token recipient amount}
    (hok : swapTo env v token amount n recipient = .ok v') : Reads v' b shares buffer := by
  obtain ⟨amount6, px, v1, left, v2, out, used, core, h1, h2, -, rfl⟩ := swapTo_eq hok
  obtain ⟨-, usd, hfee⟩ := retainUsd_eq h2
  exact ((h.rebalance h1).recordFee hfee).withCore core

end

theorem Holds.execPublic {c} (h : Holds v b) (hok : execPublic env v c = .ok v') :
    ∃ b', Holds v' b' ∧ ((∀ source dest amount, c ≠ .transferShares source dest amount) → b'.plain = b.plain) := by
  cases c with
  | transferShares source dest amount =>
    exact ⟨_, (h.transferShares hok).2, fun hc => absurd rfl (hc source dest amount)⟩
  | syncLev =>
    obtain ⟨n, k, hend⟩ := h.syncLev hok
    exact ⟨_, hend, fun _ => rfl⟩
  | collectFees =>
    obtain ⟨-, hok⟩ := of_require hok
    obtain ⟨n, k, hend⟩ := h.collect hok
    exact ⟨_, hend, fun _ => rfl⟩
  | compound =>
    simp only [Vault.execPublic, Vault.compound] at hok
    split_ifs at hok
    · cases hok
      exact ⟨b, h, fun _ => rfl⟩
    · obtain ⟨n, k, hend⟩ := h.collect hok
      exact ⟨_, hend, fun _ => rfl⟩
  | setLevManager =>
    obtain ⟨-, -, hok⟩ := of_require₂ hok
    cases hok
    exact ⟨b, ⟨h.pooled, h.levPooled, h.levBuf, h.lpShares, h.totalBuffer⟩, fun _ => rfl⟩
  | repack => exact ⟨b, Reads.rebalanceFor h hok, fun _ => rfl⟩
  | swapTo => exact ⟨b, Reads.swapTo h hok, fun _ => rfl⟩

theorem Holds.exec {c} (h : Holds v b) (hok : exec env v c = .ok v') : ∃ b', Holds v' b' := by
  cases c with
  | anyone =>
    obtain ⟨b', hend, -⟩ := h.execPublic hok
    exact ⟨b', hend⟩
  | requestDeposit lpEth =>
    by_cases hlp : lpEth = 0
    · rw [Vault.exec, Vault.requestDeposit, if_pos (Or.inr hlp)] at hok
      cases hok
      exact ⟨b, h⟩
    · exact ⟨_, h.requestDeposit hlp hok⟩
  | requestRedeem lpEth lpPayoutSats | resize lpEth shrinkSats lpPayoutSats exactUsd =>
    obtain ⟨n, k, hend⟩ := h.resizeLp hok
    exact ⟨_, hend⟩
  | creditSwapIn =>
    obtain ⟨⟨consumed, w⟩, hw, hok⟩ := of_bind hok
    cases hok
    exact ⟨b, Reads.creditSwapIn h hw⟩
  | creditSwapOut =>
    obtain ⟨⟨sats, usd6, w⟩, hw, hok⟩ := of_bind hok
    cases hok
    exact ⟨b, Reads.creditSwapOut h hw⟩
  | addPendingSwapOut usd6 | subPendingSwapOut usd6 =>
    obtain ⟨core, -, hok⟩ := of_bind hok
    cases hok
    exact ⟨b, h.withCore core⟩

def Book.empty : Book := ⟨fun _ => 0, fun _ => 0, fun _ => 0⟩

theorem holds_deployed (priceWad : ℕ) : Holds (deployed priceWad) Book.empty where
  pooled _ := rfl
  levPooled := rfl
  levBuf := rfl
  lpShares := by simp [deployed, Book.total, Book.empty]
  totalBuffer := by simp [deployed, Book.buffer, Book.empty]

def Balanced (v : State) : Prop := ∃ b, Holds v b

theorem Balanced.run {cs} (h : Balanced v) (hrun : runAll step v cs = .ok v') : Balanced v' := by
  have hstep : ∀ w c w', Balanced w → True → step w c = .ok w' → Balanced w' := by
    rintro w c w' ⟨b, hb⟩ - hok
    exact hb.exec hok
  exact runAll_invariant hstep h (everyStep_trivial _ _) hrun

theorem balanced_deployed (priceWad : ℕ) : Balanced (deployed priceWad) := ⟨_, holds_deployed priceWad⟩

theorem lpShares_balance (priceWad : ℕ) (cs : List (Env × Call)) (v : State)
    (hrun : runAll step (deployed priceWad) cs = .ok v) :
    v.lpShares = ∑ a, (v.autoManaged a).pooled ∧ v.totalBuffer = ∑ a, v.levBuf a ∧
      ∀ a, v.levPooled a ≤ (v.autoManaged a).pooled := by
  obtain ⟨b, hb⟩ := (balanced_deployed priceWad).run hrun
  refine ⟨?_, ?_, fun a => ?_⟩
  · rw [hb.lpShares, Book.total, ← Finset.sum_add_distrib]
    exact Finset.sum_congr rfl fun a _ => (hb.pooled a).symm
  · rw [hb.totalBuffer, hb.levBuf]
    rfl
  · rw [hb.pooled, hb.levPooled]
    exact Nat.le_add_left _ _

theorem Holds.rangeOf_eq (h : Holds v b) : rangeOf v = b.plain := funext (Reads.rangeOf h)

section

variable (h : Balanced v)

include h

theorem Balanced.rangeOf {f : (Address → ℕ) → Address → ℕ}
    (hbook : ∀ {b}, Holds v b → ∃ b', Holds v' b' ∧ b'.plain = f b.plain) : rangeOf v' = f (rangeOf v) := by
  obtain ⟨b, hb⟩ := h
  obtain ⟨b', hb', hplain⟩ := hbook hb
  rw [hb.rangeOf_eq, hb'.rangeOf_eq, hplain]

theorem Balanced.requestDeposit (hlp : lp ≠ 0) (hok : requestDeposit env v lp n = .ok v') :
    Vault.rangeOf v' = update (Vault.rangeOf v) lp (Vault.rangeOf v lp + n) :=
  h.rangeOf (f := fun plain => update plain lp (plain lp + n))
    fun hb => ⟨_, hb.requestDeposit hlp hok, rfl⟩

theorem Balanced.resizeLp {full payout exactUsd} (hok : resizeLp env v lp n payout full exactUsd = .ok v') :
    Vault.rangeOf v' = update (Vault.rangeOf v) lp (if full then 0 else Vault.rangeOf v lp - n) := by
  apply h.rangeOf (f := fun plain => update plain lp (if full then 0 else plain lp - n))
  intro b hb
  obtain ⟨lev, buf, hend⟩ := hb.resizeLp hok
  refine ⟨_, hend, ?_⟩
  cases full with
  | true => simp [Book.resized, Book.clear, Book.withdraw, Book.relever]
  | false =>
    have hmin : b.plain lp - min n (b.plain lp) = b.plain lp - n := by omega
    simp [Book.resized, Book.withdraw, Book.relever, hmin]

theorem Balanced.execPublic {c} (hc : ∀ source dest amount, c ≠ .transferShares source dest amount)
    (hok : execPublic env v c = .ok v') : Vault.rangeOf v' = Vault.rangeOf v := by
  apply h.rangeOf (f := id)
  intro b hb
  obtain ⟨b', hend, hplain⟩ := hb.execPublic hok
  exact ⟨b', hend, hplain hc⟩

theorem Balanced.creditSwapIn {seller token consumed}
    (hok : creditSwapIn env v seller n token k = .ok (consumed, v')) : Vault.rangeOf v' = Vault.rangeOf v :=
  h.rangeOf (f := id) fun hb => ⟨_, Reads.creditSwapIn hb hok, rfl⟩

theorem Balanced.creditSwapOut {swapper token sats usd6}
    (hok : creditSwapOut env v swapper token n k = .ok (sats, usd6, v')) : Vault.rangeOf v' = Vault.rangeOf v :=
  h.rangeOf (f := id) fun hb => ⟨_, Reads.creditSwapOut hb hok, rfl⟩

end

end

def sharesRun : List (Env × Call) :=
  let lp := 5
  let other := 6
  let levered := { quietEnv with
    grossCollateral := fun _ => 30000
    netEquity := fun _ => 20000
    debtUsd := fun _ => 10 ^ 22 }
  [(quietEnv, .requestDeposit lp 500000), (quietEnv, .requestDeposit other 70000),
   (quietEnv, .anyone (.setLevManager 9)),
   (levered, .anyone (.syncLev lp)),
   (levered, .anyone (.transferShares lp other 1000)),
   (levered, .anyone (.swapTo 3 (10 ^ 8) 1 lp)),
   (levered, .anyone (.collectFees lp)),
   (levered, .resize lp 9000 9000 0),
   (quietEnv, .requestRedeem other 0)]

theorem lpShares_balance_sharesRun : ∃ v, runAll step (deployed (10 ^ 33)) sharesRun = .ok v ∧
    (0 < v.lpShares ∧ 0 < v.totalBuffer ∧ v.usdFees ≠ 0) ∧
    v.lpShares = ∑ a, (v.autoManaged a).pooled ∧ v.totalBuffer = ∑ a, v.levBuf a ∧
      ∀ a, v.levPooled a ≤ (v.autoManaged a).pooled := by
  obtain ⟨v, hv, hlive⟩ :
      ∃ v, runAll step (deployed (10 ^ 33)) sharesRun = .ok v ∧ 0 < v.lpShares ∧ 0 < v.totalBuffer ∧ v.usdFees ≠ 0 := by
    decide +kernel
  exact ⟨v, hv, hlive, lpShares_balance _ _ v hv⟩

end QuidProtocol.Vault
