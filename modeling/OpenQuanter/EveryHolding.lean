/-
# What every holding keeps

A property of a holding is kept by everything an event books, if it is kept by what the event can
ask of a matcher, by an order that is accepted, by a mark and by the fills of the event
(`Kernel.forall_booked`); and by the check the event ends in, if closing a holding out keeps it
(`Kernel.forall_settle`).
-/
import OpenQuanter.OrdersEnd

open Logged

/-- What an event can ask of a matcher that is given no order. -/
inductive Matcher.Asked (m : Matcher) : Matcher → Prop where
  | cancel (id : OrderId) : Asked m (m.cancel id).1
  | onTick (tick : Tick) : Asked m (m.onTick tick)
  | onDepth (update : DepthUpdate) : Asked m (m.onDepth update).1

namespace State

variable {P : Holding → Prop}

/-- Out of range it is the first holding. -/
theorem holdingsAt_mem_holdings (s : State) (index : Nat) : s.holdingsAt index ∈ s.holdings := by
  by_cases hlt : index < s.holdings.length
  · exact holdingsAt_mem hlt
  · unfold holdingsAt
    rw [List.getD_eq_default _ _ (Nat.not_lt.mp hlt)]
    exact List.head_mem _

/-- A change of one holding. -/
theorem forall_modifyAt {s : State} {index : Nat} {f : Holding → Holding}
    (hs : ∀ h ∈ s.holdings, P h) (hf : P (s.holdingsAt index) → P (f (s.holdingsAt index))) :
    ∀ h ∈ (s.modifyAt index f).holdings, P h := by
  intro h hh
  obtain ⟨j, hj, rfl⟩ := List.mem_iff_getElem.mp hh
  have hlt : j < s.holdings.length := by rwa [holdings_modifyAt, List.length_modify] at hj
  simp only [holdings_modifyAt, List.getElem_modify]
  split
  · rename_i hindex
    subst hindex
    have hat : s.holdingsAt index = s.holdings[index] := List.getD_eq_getElem _ _ hlt
    rw [← hat]
    exact hf (hs _ (holdingsAt_mem hlt))
  · exact hs _ (List.getElem_mem hlt)

end State

namespace Kernel

variable {P : Holding → Prop} {k : Kernel}

theorem forall_cancelFirst (hcall : ∀ h m, h.engine.Asked m → P h → P { h with engine := m })
    (id : OrderId) :
    ∀ {holdings : List Holding}, (∀ h ∈ holdings, P h) → ∀ h ∈ (cancelFirst id holdings).1, P h
  | [], _ => fun _ hh => nomatch hh
  | x :: rest, hall => by
    obtain ⟨hx, hrest⟩ := List.forall_mem_cons.mp hall
    simp only [cancelFirst]
    split
    · exact List.forall_mem_cons.mpr ⟨hcall x _ (.cancel id) hx, hrest⟩
    · exact List.forall_mem_cons.mpr ⟨hcall x _ (.cancel id) hx, forall_cancelFirst hcall id hrest⟩

theorem forall_bookFills {index : Nat} {fills : List Fill} (hk : ∀ h ∈ k.state.holdings, P h)
    (hfill : ∀ fill ∈ fills, ∀ s : State, (∀ h ∈ s.holdings, P h) →
      ∀ h ∈ (s.applyFill fill).val.holdings, P h) :
    ∀ h ∈ (k.bookFills index fills).val.state.holdings, P h := by
  induction fills generalizing k with
  | nil => exact hk
  | cons fill rest ih =>
    obtain ⟨hfirst, hrest⟩ := List.forall_mem_cons.mp hfill
    unfold bookFills at ih ⊢
    rw [List.foldlM_cons, val_bind]
    exact ih (hfirst _ hk) hrest

/-- **What a holding keeps through everything an event books.** -/
theorem forall_booked {event : Event} (hk : ∀ h ∈ k.state.holdings, P h)
    (hcall : ∀ h m, h.engine.Asked m → P h → P { h with engine := m })
    (hsubmit : ∀ h order now, k.accepts event = some order.id → P h →
      P { h with engine := h.engine.submit order now })
    (hmark : ∀ instrument tick, event = .tick instrument tick → ∀ h, P h →
    P { h with mark := tick.last })
    (hfill : ∀ fill ∈ k.fillsOf event, ∀ s : State, (∀ h ∈ s.holdings, P h) →
      ∀ h ∈ (s.applyFill fill).val.holdings, P h) :
    ∀ h ∈ (k.booked event).val.1.state.holdings, P h := by
  cases event with
  | tick instrument tick =>
    have hroute : k.cleared.route instrument = k.route instrument := rfl
    unfold fillsOf at hfill
    unfold booked
    simp only [hroute]
    cases hr : k.route instrument with
    | none => exact hk
    | some index =>
      simp only [hr] at hfill ⊢
      have hobserved : ∀ h ∈ (k.cleared.observe index tick).state.holdings, P h :=
        State.forall_modifyAt (s := k.state.withNow tick.stamp.exch) hk
          (hmark instrument tick rfl _)
      unfold bookTick
      simp only
      split
      · exact hobserved
      · -- the matcher is asked before its fills are booked
        rename_i hsim
        have hsim' : ¬ k.state.matching = .venue := hsim
        rw [if_neg hsim'] at hfill
        exact forall_bookFills (k := k.cleared.advanced index tick)
          (State.forall_modifyAt hobserved (hcall _ _ (.onTick tick))) hfill
  | funding instrument at_ rate mark =>
    unfold booked bookSettlement
    simp only
    split
    · exact hk
    · split <;> exact hk
  | venueFill fill reported =>
    simp only [fillsOf] at hfill
    simp only [booked, bookVenueFill]
    by_cases hvenue : k.state.matching = .venue
    · have hnot : ¬ k.cleared.state.matching ≠ .venue := fun h => h hvenue
      rw [if_pos hvenue] at hfill
      rw [if_neg hnot]
      refine hfill fill (List.mem_singleton_self _) _ ?_
      -- what the fill is of leaves the book first
      have hwithdrawn : ∀ h ∈ (withdrawFilled (k.state.withNow fill.stamp.exch) fill).holdings,
        P h := by
        unfold withdrawFilled
        split
        · exact hk
        · exact State.forall_modifyAt hk (hcall _ _ (.cancel fill.order))
      cases reported <;> exact hwithdrawn
    · have hnot : k.cleared.state.matching ≠ .venue := hvenue
      rw [if_pos hnot]
      exact hk
  | submit instrument id side price qty offset stamp =>
    show ∀ h ∈ (k.cleared.onSubmit instrument id side price qty offset stamp).state.holdings, P h
    simp only [accepts] at hsubmit
    unfold onSubmit at hsubmit ⊢
    by_cases hqty : 0 < qty
    · rw [dif_pos hqty] at hsubmit ⊢
      by_cases hdup : k.cleared.working.contains id = true
      · rw [if_pos hdup]
        exact hk
      · rw [if_neg hdup] at hsubmit ⊢
        cases hroute : k.cleared.route instrument with
        | none => exact hk
        | some index =>
          simp only [hroute] at hsubmit ⊢
          by_cases hmargin : k.cleared.state.balance ≤ 0
          · rw [if_pos hmargin]
            exact hk
          · rw [if_neg hmargin] at hsubmit ⊢
            refine State.forall_modifyAt hk (hsubmit _ _ stamp.local_ ?_)
            rw [orderOf_id]
            rfl
    · rw [dif_neg hqty]
      exact hk
  | cancel id stamp =>
    show ∀ h ∈ (k.cleared.onCancel id).state.holdings, P h
    unfold onCancel
    simp only
    split <;> exact forall_cancelFirst hcall id hk
  | fundingCharged instrument at_ amount =>
    show ∀ h ∈ (k.cleared.onFundingCharged instrument at_ amount).val.state.holdings, P h
    unfold onFundingCharged
    simp only
    split <;> exact hk
  | feeRecovered at_ amount remainingMissing => exact hk
  | time at_ => exact hk
  | marginDeposit amount at_ => exact hk
  | depth update =>
    show ∀ h ∈ (k.cleared.onDepth update).state.holdings, P h
    unfold onDepth
    split
    · exact State.forall_modifyAt hk (hcall _ _ (.onDepth update))
    · exact hk

/-- And through the check it ends in, if closing a holding out keeps it. -/
theorem forall_settle {p : Kernel × Option PriceTicks} (hp : ∀ h ∈ p.1.state.holdings, P h)
    (hclose : ∀ h, P h → P h.closedOut) : ∀ h ∈ (settle p).val.state.holdings, P h := by
  unfold settle
  split
  · exact hp
  · unfold checkLiquidation
    split
    · exact hp
    · split
      · intro h hh
        have hh : h ∈ (p.1.state.closeAll _).val.1.holdings := hh
        rw [State.holdings_closeAll] at hh
        obtain ⟨x, hx, rfl⟩ := List.mem_map.mp hh
        unfold State.closedIn
        split
        · exact hclose x (hp x hx)
        · exact hp x hx
      · exact hp

end Kernel
