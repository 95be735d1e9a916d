import QuidProtocol.Stay.Model

/-!
The exits of `repo`, with or without an order: every way in which a call leaves the position.
-/

namespace QuidProtocol.Stay

open Lib

def IsI64 (x : ℤ) : Prop := -2 ^ 63 ≤ x ∧ x < 2 ^ 63

def checkpointed (e : Env) (k : Desk) : Desk :=
  { k with pod := { k.pod with premiumCheckpoint := e.actuary.premiumIndex } }

def chargedDesk (e : Env) (k : Desk) (amount : ℤ) : Desk :=
  { k with pod := { k.pod with premiumCheckpoint := e.actuary.premiumIndex
                               pledged := k.pod.pledged - (quote e k amount).accrued } }

def WithinEdges (pod : Stock) (q : Quote) : Prop :=
  if 0 < pod.exposure then q.mark - q.triggerAmt ≤ q.oldValue ∧ q.oldValue ≤ sat (q.mark + q.collarAmt)
  else q.mark - q.collarAmt < q.oldValue ∧ q.oldValue ≤ sat (q.mark + q.triggerAmt)

structure Unbreached (pod : Stock) (q : Quote) : Prop where
  edges : ¬ q.reducing → 0 < q.oldValue → WithinEdges pod q
  short : 0 < pod.exposure ∨ q.mark - q.collarAmt < q.oldValue ∨ q.oldValue = 0

def OnLongSide (pod : Stock) (amount : ℤ) : Prop := 0 < pod.exposure ∨ (pod.exposure = 0 ∧ 0 < amount)

inductive Exits (e : Env) (k : Desk) (q : Quote) (amount : ℤ) : Outcome → Prop
  | unwound {time : _} (hnone : amount = 0) (hvalue : 0 < q.oldValue) : Exits e k q amount (unwindATranche e k q time)
  | posted {time excess gross k' : _} (hreducing : ¬ q.reducing) (hvalue : 0 < q.oldValue)
      (h : postVariationMargin e k q.oldValue q.oldValue excess time = .ok (some (k', gross)))
      (hout : ¬ WithinEdges k.pod q) :
      Exits e k q amount { desk := k'.draw (asI64 gross), delta := asI64 gross, interest := q.accrued }
  | reinstated {time gross k' : _} (horder : amount ≠ 0) (hreducing : ¬ q.reducing) (hvalue : 0 < q.oldValue)
      (h : reinstateExposure e k q.oldValue q.oldValue (q.mark - q.triggerAmt - q.oldValue - q.collarAmt) time true =
        .ok (some (k', gross))) (hout : ¬ WithinEdges k.pod q) (hbelow : q.oldValue < q.mark - q.triggerAmt) :
      Exits e k q amount { desk := k'.draw (asI64 gross), delta := 0, interest := q.accrued }
  | sold {time : _} (hneg : amount < 0) (hin : Unbreached k.pod q) (hlong : 0 < k.pod.exposure) :
      Exits e k q amount (sellLong e (clearBreach k q q.oldValue) q amount time)
  | bought {time o : _} (hpos : 0 < amount) (hin : Unbreached k.pod q)
      (h : buyLong e (clearBreach k q q.oldValue) q amount time = .ok o) (hlong : 0 ≤ k.pod.exposure) :
      Exits e k q amount o
  | covered {time : _} (hpos : 0 < amount) (hin : Unbreached k.pod q) (hshort : k.pod.exposure < 0) :
      Exits e k q amount (coverShort e (clearBreach k q q.oldValue) q amount q.oldValue time)
  | marked {time k' : _} (hside : ¬ OnLongSide k.pod amount) (hin : Unbreached k.pod q)
      (h : issueShort e (clearBreach k q q.oldValue) q amount = .ok k') :
      Exits e k q amount (markShort e k' q ((clearBreach k q q.oldValue).pod.marked ≠ 0) time)
  | ignored (hreducing : q.reducing) (hside : ¬ OnLongSide k.pod amount) (hvalue : 0 < q.oldValue)
      (hbelow : q.oldValue ≤ q.mark - q.collarAmt) : Exits e k q amount { desk := k, delta := 0, interest := 0 }

structure Keeps (k k' : Desk) : Prop where
  quid : k'.depositedQuid ≤ k.depositedQuid
  ticker : k'.pod.ticker = k.pod.ticker
  bank : ∃ totalDrawn, k'.bank = { k.bank with totalDrawn }

section

variable {e : Env} {k k' k₁ : Desk} {q : Quote} {o : Outcome} {amount : ℤ} {time value excess gross n : ℕ}

theorem exposure_nonpos {pod} (h : ¬ OnLongSide pod amount) : pod.exposure ≤ 0 := by
  unfold OnLongSide at h
  omega

theorem restore_exits (hreducing : ¬ q.reducing) (hvalue : 0 < q.oldValue) (hout : ¬ WithinEdges k.pod q)
    (h : restore e k q amount q.oldValue excess time = .ok o) : Exits e k q amount o := by
  obtain ⟨x, hx, h⟩ := of_bind h
  cases x with
  | none =>
    dsimp only at h
    split_ifs at h with horder
    cases h
    exact .unwound (not_not.mp horder) hvalue
  | some y =>
    cases h
    exact .posted hreducing hvalue hx hout

theorem repoLong_exits (hlong : OnLongSide k.pod amount) (hq : q.oldValue = k.pod.valueAt e.price)
    (h : repoLong e k q amount time = .ok o) : Exits e k q amount o := by
  unfold OnLongSide at hlong
  have hopen (hvalue : 0 < q.oldValue) : 0 < k.pod.exposure := by
    apply hlong.resolve_right
    rintro ⟨hflat, -⟩
    simp [hq, Stock.valueAt, unitsValue, hflat, sat128, sat] at hvalue
  have hedges (hvalue : 0 < q.oldValue) : WithinEdges k.pod q ↔
      q.mark - q.triggerAmt ≤ q.oldValue ∧ q.oldValue ≤ sat (q.mark + q.collarAmt) := iff_of_eq (if_pos (hopen hvalue))
  unfold repoLong at h
  dsimp only at h
  split at h
  case isTrue hover =>
    have hvalue : 0 < q.oldValue := by omega
    exact restore_exits hover.2 hvalue (by rw [hedges hvalue]; omega) h
  case isFalse hover =>
    split at h
    case isTrue hunder =>
      obtain ⟨x, hx, h⟩ := of_bind h
      cases x with
      | none =>
        dsimp only at h
        split_ifs at h with hnone
        cases h
        exact .unwound hnone hunder.2.1
      | some y =>
        have horder : amount ≠ 0 := by
          rintro rfl
          cases Except.ok.inj hx
        rw [decide_eq_true horder] at hx
        cases h
        exact .reinstated horder hunder.2.2 hunder.2.1 hx (by rw [hedges hunder.2.1]; omega) hunder.1
    case isFalse hunder =>
      have hin : Unbreached k.pod q := by
        constructor
        · intro hreducing hvalue
          rw [hedges hvalue]
          constructor
          · by_contra hlt
            exact hunder ⟨by omega, hvalue, hreducing⟩
          · by_contra hlt
            exact hover ⟨by omega, hreducing⟩
        · obtain hzero | hvalue := q.oldValue.eq_zero_or_pos
          · exact .inr (.inr hzero)
          · exact .inl (hopen hvalue)
      obtain ⟨u, horder, h⟩ := of_bind h
      have horder : amount ≠ 0 := require_eq_ok.mp horder
      split_ifs at h with hneg
      · cases h
        exact .sold hneg hin (by omega)
      · exact .bought (by omega) hin h (by omega)

theorem repoShort_exits (hside : ¬ OnLongSide k.pod amount) (hq : q.oldValue = k.pod.valueAt e.price)
    (h : repoShort e k q amount time = .ok o) : Exits e k q amount o := by
  have hshort := exposure_nonpos hside
  unfold repoShort at h
  have hvalue : unitsValue k.pod.exposure.natAbs e.price = q.oldValue := hq.symm
  have hedges : WithinEdges k.pod q ↔
      q.mark - q.collarAmt < q.oldValue ∧ q.oldValue ≤ sat (q.mark + q.triggerAmt) := iff_of_eq (if_neg (by omega))
  rw [hvalue] at h
  dsimp only at h
  split at h
  case isTrue hunder => exact restore_exits hunder.2.2 hunder.2.1 (by rw [hedges]; omega) h
  case isFalse hunder =>
    split at h
    case isTrue hpivot =>
      split at h
      case isTrue hover => exact restore_exits hover.2 (by omega) (by rw [hedges]; omega) h
      case isFalse hover =>
        have hin : Unbreached k.pod q := by
          constructor
          · intro hreducing hvalue
            rw [hedges]
            refine ⟨by omega, ?_⟩
            by_contra hlt
            exact hover ⟨by omega, hreducing⟩
          · exact .inr hpivot
        split at h
        case isTrue hcover =>
          cases h
          exact .covered hcover.1 hin (by unfold OnLongSide at hside; omega)
        case isFalse hcover =>
          obtain ⟨k', hk', h⟩ := of_bind h
          cases h
          exact .marked hside hin hk'
    case isFalse hpivot =>
      cases h
      have hreducing : q.reducing := by
        by_contra hadding
        exact hunder ⟨by omega, by omega, hadding⟩
      exact .ignored hreducing hside (by omega) (by omega)

theorem repoPod_exits (h : repoPod e k amount = .ok o) : (marginCalled k (quote e k amount) amount ∧
        o = unwindATranche e (checkpointed e k) (quote e k amount) e.now) ∨
      (¬ marginCalled k (quote e k amount) amount ∧ ∃ o', o = { o' with charged := (quote e k amount).accrued } ∧
          Exits e (chargedDesk e k amount) (quote e k amount) amount o') := by
  unfold repoPod at h
  dsimp only at h
  split at h
  case isTrue hcall => exact .inl ⟨hcall, ok_inj h⟩
  case isFalse hcall =>
    obtain ⟨o', ho', rfl⟩ := map_eq_ok.mp h
    refine .inr ⟨hcall, o', rfl, ?_⟩
    split_ifs at ho' with hlong
    · exact repoLong_exits hlong rfl ho'
    · exact repoShort_exits hlong rfl ho'

theorem Keeps.refl (k : Desk) : Keeps k k := ⟨le_rfl, rfl, k.bank.totalDrawn, rfl⟩

theorem Keeps.trans (h : Keeps k k₁) (h' : Keeps k₁ k') : Keeps k k' := by
  obtain ⟨n, hn⟩ := h.bank
  obtain ⟨m, hm⟩ := h'.bank
  exact ⟨h'.quid.trans h.quid, h'.ticker.trans h.ticker, m, by rw [hm, hn]⟩

theorem keeps_draw (k change) : Keeps k (k.draw change) := ⟨le_rfl, rfl, _, rfl⟩

theorem keeps_unwind (e k q time) : Keeps k (unwindATranche e k q time).desk := by
  unfold unwindATranche
  dsimp only
  split_ifs
  · exact ⟨le_rfl, rfl, k.bank.totalDrawn, rfl⟩
  · exact ⟨le_rfl, rfl, _, rfl⟩

theorem postVariationMargin_eq (h : postVariationMargin e k n value excess time = .ok (some (k', gross))) :
    gross = sat (excess + excess / 250) ∧ gross ≤ k.depositedQuid ∧ ∃ collarBps, k' = { k with
      depositedQuid := k.depositedQuid - gross
      pod := { k.pod with
        pledged := sat (k.pod.pledged + (gross - gross / 250 : ℕ) +
          ((value : ℤ) - k.pod.mark) * (if 0 ≤ k.pod.exposure then 1 else -1) : ℤ).toNat
        marked := value, breachedAt := 0, updated := time, collarBps } } := by
  unfold postVariationMargin at h
  dsimp only at h
  by_cases hlack : k.depositedQuid < sat (excess + excess / 250)
  · rw [if_pos hlack] at h
    exact absurd (Except.ok.inj h) (by simp)
  · rw [if_neg hlack] at h
    obtain ⟨-, h⟩ := of_require h
    obtain ⟨rfl, rfl⟩ := Prod.mk.inj (Option.some.inj (Except.ok.inj h))
    exact ⟨rfl, not_lt.mp hlack, _, rfl⟩

theorem keeps_postVariationMargin (h : postVariationMargin e k n value excess time = .ok (some (k', gross))) :
    Keeps k k' := by
  obtain ⟨-, -, collarBps, rfl⟩ := postVariationMargin_eq h
  exact ⟨Nat.sub_le _ _, rfl, k.bank.totalDrawn, rfl⟩

theorem reinstateExposure_eq {byOwner gap}
    (h : reinstateExposure e k n value gap time byOwner = .ok (some (k', gross))) :
    gross = sat (gap + gap / 250) ∧ gross ≤ k.depositedQuid ∧ ∃ collarBps, k' = { k with
      depositedQuid := k.depositedQuid - gross
      pod := { k.pod with
        exposure := satI64 (k.pod.exposure + (if k.pod.exposure < 0
          then -asI64 (valueUnits (gross - gross / 250) e.price) else asI64 (valueUnits (gross - gross / 250) e.price)))
        marked := sat (k.pod.marked + (gross - gross / 250)), breachedAt := 0, updated := time, collarBps } } := by
  unfold reinstateExposure at h
  dsimp only at h
  by_cases hlack : ¬ byOwner ∨ k.depositedQuid < sat (gap + gap / 250) ∨ e.price = 0
  · rw [if_pos hlack] at h
    exact absurd (Except.ok.inj h) (by simp)
  · rw [if_neg hlack] at h
    obtain ⟨-, h⟩ := of_require h
    obtain ⟨rfl, rfl⟩ := Prod.mk.inj (Option.some.inj (Except.ok.inj h))
    obtain ⟨-, hfunded⟩ := not_or.mp hlack
    exact ⟨rfl, not_lt.mp (not_or.mp hfunded).1, _, rfl⟩

theorem keeps_reinstate {byOwner gap}
    (h : reinstateExposure e k n value gap time byOwner = .ok (some (k', gross))) : Keeps k k' := by
  obtain ⟨-, -, collarBps, rfl⟩ := reinstateExposure_eq h
  exact ⟨Nat.sub_le _ _, rfl, k.bank.totalDrawn, rfl⟩

theorem clearBreach_eq (k q value) :
    ∃ breachedAt, clearBreach k q value = { k with pod := { k.pod with breachedAt } } := by
  unfold clearBreach
  split_ifs
  · exact ⟨0, rfl⟩
  · exact ⟨k.pod.breachedAt, rfl⟩

theorem keeps_clearBreach (k q value) : Keeps k (clearBreach k q value) := by
  obtain ⟨breachedAt, hclear⟩ := clearBreach_eq k q value
  rw [hclear]
  exact ⟨le_rfl, rfl, k.bank.totalDrawn, rfl⟩

theorem keeps_fundMargin (e k bandBps newValue) : Keeps k (fundMargin e k bandBps newValue).1 := by
  unfold fundMargin
  dsimp only
  split_ifs
  · exact ⟨Nat.sub_le _ _, rfl, k.bank.totalDrawn, rfl⟩
  · exact ⟨Nat.sub_le _ _, rfl, k.bank.totalDrawn, rfl⟩
  · exact ⟨Nat.sub_le _ _, rfl, k.bank.totalDrawn, rfl⟩
  · exact Keeps.refl k

def funded (e : Env) (k : Desk) (q : Quote) (amount : ℤ) : Desk × ℕ × ℕ :=
  fundMargin e { k with pod := { k.pod with exposure := satI64 (k.pod.exposure + amount) } } q.bandBps
    (unitsValue (satI64 (k.pod.exposure + amount)).natAbs e.price)

theorem keeps_funded (e k q amount) : Keeps k (funded e k q amount).1 := by
  have hset : Keeps k { k with pod := { k.pod with exposure := satI64 (k.pod.exposure + amount) } } :=
    ⟨le_rfl, rfl, k.bank.totalDrawn, rfl⟩
  exact hset.trans (keeps_fundMargin e _ q.bandBps _)

theorem buyLong_eq (h : buyLong e k q amount time = .ok o) :
    (funded e k q amount).1.bank.hasCapacity ((LiabilityUpdate.compute q.oldValue
      (funded e k q amount).1.pod.collarBps ((funded e k q amount).1.pod.valueAt e.price)
      (funded e k q amount).1.pod.pledged e.actuary).newCollarDollars -
        sat (q.oldValue * (funded e k q amount).1.pod.collarBps) / bps) = true ∧ ∃ marked collarBps drawn, o = {
      desk := { (funded e k q amount).1 with
        pod := { (funded e k q amount).1.pod with marked, updated := time, collarBps } }.draw drawn
      delta := asI64 (funded e k q amount).2.1
      interest := q.accrued } := by
  obtain ⟨-, hgate, h⟩ := of_require₂ h
  exact ⟨hgate, _, _, _, ok_inj h⟩

theorem issueShort_eq (h : issueShort e k q amount = .ok k') : amount < 0 ∧ k' = { (funded e k q amount).1 with
      bank := (funded e k q amount).1.bank.utilisation (-(min (funded e k q amount).2.2 i64Max : ℕ)) } ∨
    ¬ amount < 0 ∧ k' = { k with pod := { k.pod with exposure := satI64 (k.pod.exposure + amount) } } := by
  unfold issueShort at h
  split at h
  · rename_i hneg
    obtain ⟨-, h⟩ := of_require h
    exact .inl ⟨hneg, ok_inj h⟩
  · rename_i hneg
    exact .inr ⟨hneg, ok_inj h⟩

theorem sellLong_exposure (e k q amount time) :
    (sellLong e k q amount time).desk.pod.exposure = max (satI64 (k.pod.exposure + amount)) 0 := by
  unfold sellLong
  dsimp only
  split_ifs
  all_goals rfl

theorem keeps_sellLong (e k q amount time) : Keeps k (sellLong e k q amount time).desk := by
  unfold sellLong
  dsimp only
  split_ifs
  all_goals exact ⟨le_rfl, rfl, _, rfl⟩

theorem keeps_buyLong (h : buyLong e k q amount time = .ok o) : Keeps k o.desk := by
  obtain ⟨-, marked, collarBps, drawn, rfl⟩ := buyLong_eq h
  exact (keeps_funded e k q amount).trans ⟨le_rfl, rfl, _, rfl⟩

theorem keeps_issueShort (h : issueShort e k q amount = .ok k') : Keeps k k' := by
  obtain ⟨-, rfl⟩ | ⟨-, rfl⟩ := issueShort_eq h
  · exact (keeps_funded e k q amount).trans ⟨le_rfl, rfl, _, rfl⟩
  · exact ⟨le_rfl, rfl, k.bank.totalDrawn, rfl⟩

theorem Exits.keeps (h : Exits e k q amount o) : Keeps k o.desk := by
  have hclear := keeps_clearBreach k q q.oldValue
  cases h with
  | unwound => exact keeps_unwind ..
  | posted _ _ h => exact (keeps_postVariationMargin h).trans (keeps_draw _ _)
  | reinstated _ _ _ h => exact (keeps_reinstate h).trans (keeps_draw _ _)
  | sold => exact hclear.trans (keeps_sellLong ..)
  | bought _ _ h => exact hclear.trans (keeps_buyLong h)
  | covered => exact hclear.trans ⟨le_rfl, rfl, _, rfl⟩
  | marked _ _ h => exact (hclear.trans (keeps_issueShort h)).trans ⟨le_rfl, rfl, _, rfl⟩
  | ignored => exact Keeps.refl k

theorem keeps_repoPod (h : repoPod e k amount = .ok o) : Keeps k o.desk := by
  obtain ⟨-, rfl⟩ | ⟨-, o', rfl, hexit⟩ := repoPod_exits h
  · have hset : Keeps k (checkpointed e k) := ⟨le_rfl, rfl, k.bank.totalDrawn, rfl⟩
    exact hset.trans (keeps_unwind e _ _ _)
  · have hset : Keeps k (chargedDesk e k amount) := ⟨le_rfl, rfl, k.bank.totalDrawn, rfl⟩
    have hkeeps := hexit.keeps
    exact hset.trans hkeeps

theorem Exits.unwinds (h : Exits e k q amount o) (hnone : amount = 0) (htaken : o.tranche.isSome) :
    ∃ time, o = unwindATranche e k q time := by
  cases h with
  | unwound => exact ⟨_, rfl⟩
  | posted | marked | ignored => cases htaken
  | reinstated horder => exact absurd hnone horder
  | sold hneg | bought hpos | covered hpos => omega

end

end QuidProtocol.Stay
