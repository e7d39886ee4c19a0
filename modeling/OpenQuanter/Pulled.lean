/-
# The environment is the backtest, pulled (`oq-env/src/lib.rs`, `oq-backtest/src/run.rs`)

An episode and a run of the strategy that takes its actions (`replay`) drive one kernel, in two
loops.  The two kernels differ in the stamps of the orders they place: the run stamps an order as
the tick is stamped, and the environment with the time of the exchange alone.  As long as no order
is placed where a matcher reads the difference (`Env.Timely`), the kernels are twins, and the agent
is shown at each tick what the strategy is (`pulled`).
-/
import OpenQuanter.Env
import OpenQuanter.FundingRun
import OpenQuanter.Twins

open Logged

namespace Training

open Backtest (Context Host Intent Observation RunConfig Strategy)

/-! ## The strategy of an episode -/

/-- What is left of the actions, the next order id, and what the strategy was shown. -/
structure Replay where
  actions : List Action
  nextId : UInt64
  seen : List Context

/-- At each tick the strategy submits what the environment does for the next action. -/
def replayTick (ctx : Context) (told : Replay × List Intent) : Replay × List Intent :=
  match told.1.actions with
  | [] => ({ told.1 with seen := told.1.seen ++ [ctx] }, told.2)
  | action :: rest =>
    let delta := action.target - ctx.position
    if delta = 0 then
      ({ actions := rest, nextId := told.1.nextId, seen := told.1.seen ++ [ctx] }, told.2)
    else
      ({ actions := rest, nextId := told.1.nextId + 1, seen := told.1.seen ++ [ctx] },
        told.2 ++ [.market ctx.instrument told.1.nextId (sideOf delta) delta.abs
          (offsetOf ctx.position delta)])

/-- The strategy that takes an episode's actions, one a tick. -/
def replay : Strategy Replay where
  name := "replay"
  onTick := replayTick
  onFill := fun _ _ told => told
  onVenueClosed := fun _ _ told => told
  onEnded := fun _ _ told => told
  onPlaced := fun _ _ s => s

/-- What the strategy is shown along a stream. -/
def handed (c : RunConfig) (actions : List Action) (stream : List Observation) : List Context :=
  (Host.run c replay ⟨actions, 1, []⟩ stream).val.strategy.seen

/-! ## What an agent is shown -/

/-- What an agent and a strategy are both shown of an account. -/
structure Sight where
  position : QtyLots
  entry : PriceTicks
  equity : Cash
  working : Nat
  deriving DecidableEq, Repr

def Observed.sight (o : Observed) : Sight := ⟨o.position, o.entry, o.equity, o.working⟩

end Training

/-- What there is to be shown of a kernel. -/
def Kernel.sight (k : Kernel) : Training.Sight :=
  ⟨k.summary.qty, k.summary.entry, k.summary.equity, k.working.length⟩

def Backtest.Context.sight (ctx : Backtest.Context) : Training.Sight :=
  ⟨ctx.position, ctx.entry, ctx.equity, ctx.working⟩

/-- A strategy sees of a kernel what there is to be shown. -/
theorem Backtest.Host.sight_context (c : RunConfig) (k : Kernel) (tick : Tick) :
    (Host.context c k tick).sight = k.sight := rfl

/-- And so does an agent. -/
theorem Training.Env.sight_observe (e : Env) : e.observe.sight = e.kernel.sight := rfl

namespace Training

open Backtest (Context Host Intent Observation RunConfig Strategy)

namespace Env

/-- What the agent is shown at the ticks of an episode, up to the first that liquidates the
account.  What a step answers once the observations have run out is not of a tick. -/
def shown (e : Env) (o : Observed) : List Action → List Observed
  | [] => if e.ended = some .exhausted then [] else [o]
  | action :: rest =>
    if e.ended = none then o :: shown (e.step action).val.1 (e.step action).val.2.observed rest
    else if e.ended = some .exhausted then []
    else [o]

/-- The tick an environment has stopped at. -/
def lastTick (e : Env) : Option Tick :=
  match e.stream[e.cursor - 1]? with
  | some (.tick tick) => some tick
  | _ => none

/-- The order of an action, if it places one, is placed at a tick with one time, or with a matcher
that does not read when it was sent. -/
def Timely (e : Env) (action : Action) : Prop :=
  action.target - e.kernel.summary.qty = 0 ∨
    (∀ tick, e.lastTick = some tick → tick.stamp.local_ = tick.stamp.exch) ∨
    e.kernel.state.holding.engine.immediate e.nextId = true

/-- Every order of an episode is timely, as long as it goes on. -/
def RunTimely (e : Env) : List Action → Prop
  | [] => True
  | action :: rest => e.ended = none → e.Timely action ∧ (e.step action).val.1.RunTimely rest

instance (e : Env) (action : Action) : Decidable (e.Timely action) :=
  have : Decidable (∀ tick, e.lastTick = some tick → tick.stamp.local_ = tick.stamp.exch) :=
    inferInstanceAs (Decidable (∀ tick ∈ e.lastTick, tick.stamp.local_ = tick.stamp.exch))
  inferInstanceAs (Decidable (_ ∨ _ ∨ _))

instance decidableRunTimely : (actions : List Action) → (e : Env) → Decidable (e.RunTimely actions)
  | [], _ => isTrue trivial
  | action :: rest, e =>
    have := decidableRunTimely rest (e.step action).val.1
    inferInstanceAs (Decidable (e.ended = none → e.Timely action ∧ _))

end Env

end Training

/-! ## The two loops -/

namespace Kernel

variable {x : InstrumentId} {k k' : Kernel}

theorem Twin.sight (ht : Twin x k k') : k'.sight = k.sight := by
  unfold Kernel.sight
  rw [ht.summary, ht.working]

/-- Settlements keep twins. -/
theorem Twin.fundings (ht : Twin x k k') (rates : List FundingRate) :
    Twin x (k.run (rates.map Backtest.Host.fundingEvent)).val
      (k'.run (rates.map Backtest.Host.fundingEvent)).val := by
  induction rates generalizing k k' with
  | nil => exact ht
  | cons rate rest ih =>
    unfold Kernel.run at ih ⊢
    rw [List.map_cons, List.foldlM_cons, List.foldlM_cons, val_bind, val_bind]
    exact ih (ht.funding rate.at_ rate.rate rate.mark)

/-- A tick leaves the clock at its time at the exchange. -/
theorem Twin.now_tick (ht : Twin x k k') (tick : Tick) :
    (k.apply (.tick (some x) tick)).val.state.now = tick.stamp.exch := by
  obtain ⟨-, hsome, -, -⟩ := ht.cleared.route
  have hobserved := ht.cleared.observe tick
  have hchecked : ∀ o o' : Kernel, Twin x o o' →
      (o.checkLiquidation tick.last).val.state.now = o.state.now := by
    intro o o' ho
    obtain ⟨h, m', hk, -, -, -⟩ := ho.states
    rw [checkLiquidation_val]
    split
    · rfl
    · split
      · exact (liquidate_recast hk m' tick.last).2.1
      · rfl
  unfold Kernel.apply
  simp only [hsome]
  unfold Kernel.onTick
  simp only
  split
  · exact hchecked _ _ hobserved
  · rw [val_bind]
    obtain ⟨hunplaced, -⟩ := hobserved.engines tick
    have hmatched := hobserved.withMatcher (f := fun _ => _) (g := fun _ => _)
      (fun _ _ _ _ => hunplaced)
    refine (hchecked _ _ (hmatched.bookFills _)).trans ?_
    exact (kept_bookFills _ 0 _).now

end Kernel

namespace Training

open Backtest (Context Host Intent Observation RunConfig Strategy)

variable {c : RunConfig} {actions : List Action} {e : Env} {h : Host Replay}

/-- An environment and a run between two observations. -/
structure Beside (c : RunConfig) (actions : List Action) (e : Env) (h : Host Replay) : Prop where
  twin : Kernel.Twin c.instrument e.kernel h.kernel
  config : e.config = c
  instrument : e.instrument = c.instrument
  actions : h.strategy.actions = actions
  nextId : h.strategy.nextId = e.nextId
  -- a run without funding does not remember where it stands
  funding : c.funding.rates = [] ∨ h.lastFunding = e.lastFunding

theorem Beside.due (hb : Beside c actions e h) (now : Nanos) :
    c.funding.between h.lastFunding now = e.config.funding.between e.lastFunding now := by
  rw [hb.config]
  rcases hb.funding with hnone | hlast
  · rw [Backtest.FundingSchedule.between_eq_filter, Backtest.FundingSchedule.between_eq_filter,
      hnone, List.filter_nil, List.filter_nil]
  · rw [hlast]

/-! ## An observation that is no tick -/

/-- What an environment makes of an observation that is no tick. -/
def Env.read (e : Env) : Observation → Env
  | .depth update => { e with cursor := e.cursor + 1, kernel := (e.kernel.applyDepth update).1 }
  | .snapshot updateId bids asks =>
    { e with cursor := e.cursor + 1, kernel := (e.kernel.installSnapshot updateId bids asks).1 }
  | .snapshotAt at_ updateId bids asks =>
    { e with
      cursor := e.cursor + 1
      kernel := (e.kernel.installSnapshotAt at_ updateId bids asks).1 }
  | .gap _ => { e with cursor := e.cursor + 1, kernel := e.kernel.applyDepthGap.1 }
  | .tick _ => e

def Observation.isTick : Observation → Bool
  | .tick _ => true
  | _ => false

theorem Env.advance_read (e : Env) {o : Observation} (ho : Observation.isTick o = false)
    (rest : List Observation) : e.advance (o :: rest) = (e.read o).advance rest := by
  cases o with
  | tick tick => cases ho
  | depth update => rfl
  | snapshot updateId bids asks => rfl
  | snapshotAt at_ updateId bids asks => rfl
  | gap at_ => rfl

theorem Env.read_same (e : Env) {o : Observation} (ho : Observation.isTick o = false) :
    (e.read o).cursor = e.cursor + 1 ∧ (e.read o).stream = e.stream ∧
      (e.read o).ended = e.ended := by
  cases o with
  | tick tick => cases ho
  | depth update => exact ⟨rfl, rfl, rfl⟩
  | snapshot updateId bids asks => exact ⟨rfl, rfl, rfl⟩
  | snapshotAt at_ updateId bids asks => exact ⟨rfl, rfl, rfl⟩
  | gap at_ => exact ⟨rfl, rfl, rfl⟩

/-- **Depth reaches both matchers**, and neither the agent nor the strategy. -/
theorem Beside.read (hb : Beside c actions e h) {o : Observation}
    (ho : Observation.isTick o = false) :
    Beside c actions (e.read o) (h.observe c replay o).val ∧
      (h.observe c replay o).val.strategy = h.strategy := by
  obtain ⟨twin, config, instrument, hactions, nextId, funding⟩ := hb
  cases o with
  | tick tick => cases ho
  | depth update =>
    exact ⟨⟨twin.askMatcher (fun m => m.onDepth_unplaced update), config, instrument, hactions,
      nextId, funding⟩, rfl⟩
  | snapshot updateId bids asks =>
    exact ⟨⟨twin.askMatcher (fun m => m.installSnapshot_unplaced updateId bids asks), config,
      instrument, hactions, nextId, funding⟩, rfl⟩
  | snapshotAt at_ updateId bids asks =>
    exact ⟨⟨twin.askMatcher (fun m => m.installSnapshotAt_unplaced at_ updateId bids asks), config,
      instrument, hactions, nextId, funding⟩, rfl⟩
  | gap at_ =>
    exact ⟨⟨twin.askMatcher (fun m => m.onGap_unplaced), config, instrument, hactions, nextId,
      funding⟩, rfl⟩

/-! ## A tick -/

theorem Env.funds (rates : List FundingRate) (e : Env) :
    ∃ ended, (rates.foldlM Env.fund e).val =
        { e with
          kernel := (e.kernel.run (rates.map Host.fundingEvent)).val
          ended := ended } ∧ (e.ended ≠ some .exhausted → ended ≠ some .exhausted) := by
  induction rates generalizing e with
  | nil => exact ⟨e.ended, rfl, id⟩
  | cons rate rest ih =>
    obtain ⟨ended, heq, hended⟩ := ih (e.fund rate).val
    rw [List.foldlM_cons, val_bind, heq]
    refine ⟨ended, ?_, fun hne => hended ?_⟩
    · rw [List.map_cons]
      unfold Kernel.run
      rw [List.foldlM_cons, val_bind]
      rfl
    · show (if _ then some Ending.liquidated else e.ended) ≠ _
      split
      · exact nofun
      · exact hne

/-- A tick: the settlements due, and the tick itself. -/
theorem Env.takeTick_eq (e : Env) (tick : Tick) :
    ∃ ended, (e.takeTick tick).val =
        { e with
          kernel := ((e.kernel.run ((e.config.funding.between e.lastFunding tick.stamp.exch).map
            Host.fundingEvent)).val.apply (.tick (some e.instrument) tick)).val
          lastFunding := max e.lastFunding tick.stamp.exch
          ended := ended } ∧ (e.ended ≠ some .exhausted → ended ≠ some .exhausted) := by
  obtain ⟨ended, heq, hended⟩ := Env.funds (e.config.funding.between e.lastFunding tick.stamp.exch)
    { e with lastFunding := max e.lastFunding tick.stamp.exch }
  unfold Env.takeTick
  simp only
  rw [val_bind, heq]
  refine ⟨_, rfl, fun hne => ?_⟩
  show (if _ then some Ending.liquidated else ended) ≠ _
  split
  · exact nofun
  · exact hended hne

/-- What a tick hands the strategy: nothing it answers but the orders of its action. -/
theorem callBack_replay (h : Host Replay) (ctx : Context) (fills : List Fill) :
    (h.callBack replay ctx fills).1 =
        { h with
          strategy := (replayTick ctx (h.strategy, [])).1
          closedByVenue := []
          ended := [] } ∧
      (h.callBack replay ctx fills).2 = (replayTick ctx (h.strategy, [])).2 := by
  have hpass : ∀ {α : Type} (l : List α) (told : Replay × List Intent),
      l.foldl (fun told _ => told) told = told := fun l _ => List.foldl_fixed l
  constructor <;> simp only [Host.callBack, replay, hpass]

theorem strategy_funds (rates : List FundingRate) (h : Host Replay) :
    (rates.foldlM Host.fund h).val.strategy = h.strategy := by
  induction rates generalizing h with
  | nil => rfl
  | cons rate rest ih =>
    rw [List.foldlM_cons, val_bind]
    exact ih _

theorem settleFunding_replay (c : RunConfig) (h : Host Replay) (now : Nanos) :
    (h.settleFunding c now).val.strategy = h.strategy ∧
      (c.funding.rates = [] ∨ (h.settleFunding c now).val.lastFunding = max h.lastFunding now) := by
  unfold Host.settleFunding
  by_cases hempty : c.funding.rates.isEmpty = true
  · rw [if_pos hempty]
    exact ⟨rfl, Or.inl (List.isEmpty_iff.mp hempty)⟩
  · rw [if_neg hempty, val_bind]
    refine ⟨strategy_funds _ h, Or.inr ?_⟩
    show max _ now = max _ now
    rw [(Host.kernel_funds _ h).2]

/-- What a run makes of a tick before it acts on the intents. -/
theorem deliver_replay (c : RunConfig) (h : Host Replay) (tick : Tick) :
    (h.deliver c replay tick).val.1.kernel =
        ((h.settleFunding c tick.stamp.exch).val.kernel.apply (.tick none tick)).val ∧
      (h.deliver c replay tick).val.1.lastFunding =
        (h.settleFunding c tick.stamp.exch).val.lastFunding ∧
      ((h.deliver c replay tick).val.1.strategy, (h.deliver c replay tick).val.2) =
        replayTick (Host.context c (h.deliver c replay tick).val.1.kernel tick)
          (h.strategy, []) := by
  have hstrategy := (settleFunding_replay c h tick.stamp.exch).1
  generalize hsettled : (h.settleFunding c tick.stamp.exch).val = h₁ at hstrategy
  have hhost : (h.deliver c replay tick).val =
      (({ (h₁.applyTick tick).val.1 with
        tally := (h₁.applyTick tick).val.1.tally.measure c (h₁.applyTick tick).val.1.kernel tick }
          : Host Replay).callBack replay
            (Host.context c (h₁.applyTick tick).val.1.kernel tick) (h₁.applyTick tick).val.2) := by
    unfold Host.deliver
    rw [val_bind, hsettled]
    rfl
  obtain ⟨hfirst, hsecond⟩ := callBack_replay
    ({ (h₁.applyTick tick).val.1 with
      tally := (h₁.applyTick tick).val.1.tally.measure c (h₁.applyTick tick).val.1.kernel tick }
        : Host Replay) (Host.context c (h₁.applyTick tick).val.1.kernel tick)
    (h₁.applyTick tick).val.2
  rw [hhost, hfirst, hsecond, ← hstrategy]
  exact ⟨rfl, rfl, rfl⟩

/-- **A tick shows the agent and the strategy the same**, before the run acts on the intents. -/
theorem Beside.deliver (hb : Beside c actions e h) (tick : Tick) :
    (Host.context c (h.deliver c replay tick).val.1.kernel tick).sight =
        (e.takeTick tick).val.observe.sight ∧
      Kernel.Twin c.instrument (e.takeTick tick).val.kernel (h.deliver c replay tick).val.1.kernel ∧
      (e.takeTick tick).val.kernel.state.now = tick.stamp.exch ∧
      (c.funding.rates = [] ∨
        (h.deliver c replay tick).val.1.lastFunding = (e.takeTick tick).val.lastFunding) := by
  obtain ⟨ended, htaken, -⟩ := e.takeTick_eq tick
  obtain ⟨-, hlast⟩ := settleFunding_replay c h tick.stamp.exch
  obtain ⟨hkernel, hdelivered, -⟩ := deliver_replay c h tick
  -- the kernels once funding is settled and the tick is taken
  have hfunded := hb.twin.fundings (c.funding.between h.lastFunding tick.stamp.exch)
  rw [← Host.kernel_settleFunding] at hfunded
  have henv : (e.takeTick tick).val.kernel = ((e.kernel.run
      ((c.funding.between h.lastFunding tick.stamp.exch).map Host.fundingEvent)).val.apply
        (.tick (some c.instrument) tick)).val := by
    rw [htaken, hb.due, hb.instrument]
  have hticked := hfunded.tick tick
  rw [← henv, ← hkernel] at hticked
  refine ⟨?_, hticked, ?_, ?_⟩
  · rw [Host.sight_context, Env.sight_observe]
    exact hticked.sight
  · rw [henv]
    exact hfunded.now_tick tick
  · rw [hdelivered]
    rcases hlast with hnone | hlast
    · exact Or.inl hnone
    rcases hb.funding with hnone | hsame
    · exact Or.inl hnone
    · right
      rw [htaken, hlast, hsame]

/-! ## An action -/

theorem Env.place_eq (e : Env) (action : Action) :
    (e.place action).val =
      if action.target - e.kernel.summary.qty = 0 then e
      else { e with
        nextId := e.nextId + 1
        kernel := (e.kernel.apply (.submit (some e.instrument) e.nextId
          (sideOf (action.target - e.kernel.summary.qty)) none
          (action.target - e.kernel.summary.qty).abs
          (offsetOf e.kernel.summary.qty (action.target - e.kernel.summary.qty))
          ⟨e.kernel.summary.now, e.kernel.summary.now⟩)).val } := by
  unfold Env.place
  simp only
  split
  · rfl
  · rw [val_bind, val_pure]
    -- a submission liquidates nothing
    have hquiet : ((e.kernel.apply (.submit (some e.instrument) e.nextId
        (sideOf (action.target - e.kernel.summary.qty)) none
        (action.target - e.kernel.summary.qty).abs
        (offsetOf e.kernel.summary.qty (action.target - e.kernel.summary.qty))
        ⟨e.kernel.summary.now, e.kernel.summary.now⟩)).val.outputs.any
          (fun o => o.liquidation?.isSome)) = false := by
      rw [List.any_eq_false]
      intro o ho
      have hsilent := e.kernel.cleared.quiet_onSubmit rfl _ _ _ _ _ _ _ o ho
      cases o <;> first
        | exact Bool.false_ne_true
        | cases hsilent
    unfold Env.moved
    simp only [hquiet]
    rfl

/-- **An action places one order on both kernels**, if it places any. -/
theorem Beside.act {h' : Host Replay} {ctx : Context} {intents : List Intent} {tick : Tick}
    {action : Action} {rest : List Action} (htwin : Kernel.Twin c.instrument e.kernel h'.kernel)
    (hconfig : e.config = c) (hinstrument : e.instrument = c.instrument)
    (hnow : e.kernel.state.now = tick.stamp.exch)
    (hsight : ctx.sight = e.observe.sight) (hctx : ctx.instrument = c.instrument)
    (hstep : (h'.strategy, intents) = replayTick ctx (h.strategy, []))
    (hactions : h.strategy.actions = action :: rest) (hnext : h.strategy.nextId = e.nextId)
    (hfunding : c.funding.rates = [] ∨ h'.lastFunding = e.lastFunding)
    (htimely : action.target - e.kernel.summary.qty = 0 ∨ tick.stamp.local_ = tick.stamp.exch ∨
      e.kernel.state.holding.engine.immediate e.nextId = true) :
    Beside c rest (e.place action).val (intents.foldlM (Host.act c replay tick.stamp) h').val ∧
      (intents.foldlM (Host.act c replay tick.stamp) h').val.strategy.seen =
        h.strategy.seen ++ [ctx] := by
  have hposition : ctx.position = e.kernel.summary.qty := congrArg Sight.position hsight
  unfold replayTick at hstep
  simp only [hactions, hposition, List.nil_append, hctx, hnext] at hstep
  rw [e.place_eq action]
  split at hstep
  · rename_i hheld
    rw [if_pos hheld]
    obtain ⟨hstrategy, rfl⟩ := Prod.mk.inj hstep
    refine ⟨⟨htwin, hconfig, hinstrument, ?_, ?_, hfunding⟩, ?_⟩
    · exact congrArg Replay.actions hstrategy
    · exact congrArg Replay.nextId hstrategy
    · exact congrArg Replay.seen hstrategy
  · rename_i hmoves
    rw [if_neg hmoves]
    obtain ⟨hstrategy, rfl⟩ := Prod.mk.inj hstep
    have hheld : e.kernel.summary.now = tick.stamp.exch := hnow
    have hsent : (Stamp.mk e.kernel.summary.now e.kernel.summary.now).local_ = tick.stamp.local_ ∨
        e.kernel.state.holding.engine.immediate e.nextId = true :=
      (htimely.resolve_left hmoves).imp_left (fun h => hheld.trans h.symm)
    have hplaced := htwin.submit e.nextId (sideOf (action.target - e.kernel.summary.qty))
      (action.target - e.kernel.summary.qty).abs
      (offsetOf e.kernel.summary.qty (action.target - e.kernel.summary.qty)) hsent
    rw [hinstrument, List.foldlM_cons, val_bind]
    unfold Host.act
    rw [if_neg (by simp [Intent.instrument])]
    refine ⟨⟨hplaced, hconfig, rfl, ?_, ?_, hfunding⟩, ?_⟩
    · exact congrArg Replay.actions hstrategy
    · exact congrArg Replay.nextId hstrategy
    · exact congrArg Replay.seen hstrategy

/-! ## What the strategy is shown is kept -/

theorem seen_replayTick (ctx : Context) (told : Replay × List Intent) :
    (replayTick ctx told).1.seen = told.1.seen ++ [ctx] := by
  unfold replayTick
  split
  · rfl
  · simp only
    split <;> rfl

theorem strategy_cancels (stamp : Stamp) (ids : List OrderId) (h : Host Replay) :
    (ids.foldlM (fun (h : Host Replay) id => h.record (.cancel id stamp)) h).val.strategy =
      h.strategy := by
  induction ids generalizing h with
  | nil => rfl
  | cons id rest ih =>
    rw [List.foldlM_cons, val_bind]
    exact ih _

theorem strategy_acts (c : RunConfig) (stamp : Stamp) (intents : List Intent) (h : Host Replay) :
    (intents.foldlM (Host.act c replay stamp) h).val.strategy = h.strategy := by
  induction intents generalizing h with
  | nil => rfl
  | cons intent rest ih =>
    rw [List.foldlM_cons, val_bind]
    refine (ih _).trans ?_
    unfold Host.act
    split
    · unfold Host.misroute
      cases intent <;> rfl
    · cases intent with
      | limit instrument id side price qty offset => rfl
      | market instrument id side qty offset => rfl
      | cancel id => rfl
      | cancelAll => exact strategy_cancels stamp _ h

/-- The strategy is shown one context more at a tick. -/
theorem seen_onTick (c : RunConfig) (h : Host Replay) (tick : Tick) :
    (h.observe c replay (.tick tick)).val.strategy.seen = h.strategy.seen ++
      [Host.context c (h.deliver c replay tick).val.1.kernel tick] := by
  show (h.onTick c replay tick).val.strategy.seen = _
  unfold Host.onTick
  rw [val_bind]
  refine (congrArg Replay.seen (strategy_acts c tick.stamp _ _)).trans ?_
  exact (congrArg (fun p => p.1.seen) (deliver_replay c h tick).2.2).trans (seen_replayTick _ _)

/-- At an observation the strategy is shown one context or none. -/
theorem seen_observe (c : RunConfig) (h : Host Replay) (o : Observation) :
    h.strategy.seen <+: (h.observe c replay o).val.strategy.seen := by
  cases o with
  | tick tick =>
    rw [seen_onTick]
    exact List.prefix_append _ _
  | depth update => exact List.prefix_refl _
  | snapshot updateId bids asks => exact List.prefix_refl _
  | snapshotAt at_ updateId bids asks => exact List.prefix_refl _
  | gap at_ => exact List.prefix_refl _

theorem seen_run (c : RunConfig) (obs : List Observation) (h : Host Replay) :
    h.strategy.seen <+: (obs.foldlM (Host.observe c replay) h).val.strategy.seen := by
  induction obs generalizing h with
  | nil => exact List.prefix_refl _
  | cons o rest ih =>
    rw [List.foldlM_cons, val_bind]
    exact (seen_observe c h o).trans (ih _)

/-! ## Episodes -/

theorem Env.shown_of_exhausted {e : Env} (he : e.ended = some .exhausted) (o : Observed)
    (actions : List Action) : e.shown o actions = [] := by
  cases actions <;> simp [Env.shown, he]

theorem Env.shown_of_liquidated {e : Env} (he : e.ended = some .liquidated) (o : Observed)
    (actions : List Action) : e.shown o actions = [o] := by
  cases actions <;> simp [Env.shown, he]

/-- An environment that stands one observation further is still beside the run. -/
theorem Beside.forward (hb : Beside c actions e h) :
    Beside c actions { e with cursor := e.cursor + 1 } h :=
  ⟨hb.twin, hb.config, hb.instrument, hb.actions, hb.nextId, hb.funding⟩

/-- The observations run out, or the next tick finds the two side by side. -/
theorem Beside.toTick {obs : List Observation} {e : Env} {h : Host Replay}
    (hb : Beside c actions e h) (hgoing : e.ended = none) (hobs : e.stream.drop e.cursor = obs) :
    (e.advance obs).val.ended = some .exhausted ∨
      ∃ (e₀ : Env) (h₀ : Host Replay) (tick : Tick) (later : List Observation),
        Beside c actions e₀ h₀ ∧ e₀.ended = none ∧
        e₀.stream[e₀.cursor - 1]? = some (.tick tick) ∧ e₀.stream.drop e₀.cursor = later ∧
        e.advance obs = e₀.takeTick tick ∧ h₀.strategy = h.strategy ∧
        (obs.foldlM (Host.observe c replay) h).val =
          (later.foldlM (Host.observe c replay) (h₀.onTick c replay tick).val).val := by
  induction obs generalizing e h with
  | nil =>
    left
    show some (e.ended.getD .exhausted) = _
    rw [hgoing]
    rfl
  | cons o rest ih =>
    have hrest : e.stream.drop (e.cursor + 1) = rest := by
      rw [← List.drop_drop, hobs]
      rfl
    by_cases ho : Observation.isTick o = true
    · cases o with
      | tick tick =>
        have hget : e.stream[e.cursor]? = some (.tick tick) := by
          rw [← List.head?_drop, hobs]
          rfl
        exact Or.inr ⟨{ e with cursor := e.cursor + 1 }, h, tick, rest, hb.forward, hgoing, hget,
          hrest, rfl, rfl, rfl⟩
      | depth update => cases ho
      | snapshot updateId bids asks => cases ho
      | snapshotAt at_ updateId bids asks => cases ho
      | gap at_ => cases ho
    · have ho' : Observation.isTick o = false := Bool.eq_false_iff.mpr ho
      obtain ⟨hread, hstrategy⟩ := hb.read ho'
      obtain ⟨hcursor, hstream, hended⟩ := e.read_same ho'
      have hdrop : (e.read o).stream.drop (e.read o).cursor = rest := by
        rw [hcursor, hstream, hrest]
      rw [e.advance_read ho', List.foldlM_cons, val_bind]
      rcases ih hread (hended.trans hgoing) hdrop with hout | hnext
      · exact Or.inl hout
      · obtain ⟨e₀, h₀, tick, later, hb₀, hgoing₀, hget, hlater, hadvance, hsame, hrun⟩ := hnext
        exact Or.inr ⟨e₀, h₀, tick, later, hb₀, hgoing₀, hget, hlater, hadvance,
          hsame.trans hstrategy, hrun⟩

/-- The same environment, with the equity the next reward is counted from. -/
def Env.counted (e : Env) (equity : Cash) : Env := { e with lastEquity := equity }

theorem Env.step_eq {e : Env} (hgoing : e.ended = none) (action : Action) :
    (e.step action).val.1 = (e.place action).val.advanceToTick.val.counted
        (e.place action).val.advanceToTick.val.observe.equity ∧
      (e.step action).val.2.observed = (e.place action).val.advanceToTick.val.observe := by
  unfold Env.step
  rw [hgoing]
  exact ⟨rfl, rfl⟩

theorem Env.place_same (e : Env) (action : Action) :
    (e.place action).val.stream = e.stream ∧ (e.place action).val.cursor = e.cursor ∧
      (e.place action).val.ended = e.ended := by
  rw [e.place_eq action]
  split <;> exact ⟨rfl, rfl, rfl⟩

theorem Env.takeTick_same (e : Env) (tick : Tick) :
    (e.takeTick tick).val.config = e.config ∧ (e.takeTick tick).val.instrument = e.instrument ∧
      (e.takeTick tick).val.nextId = e.nextId ∧ (e.takeTick tick).val.stream = e.stream ∧
      (e.takeTick tick).val.cursor = e.cursor := by
  obtain ⟨ended, htaken, -⟩ := e.takeTick_eq tick
  rw [htaken]
  exact ⟨rfl, rfl, rfl, rfl, rfl⟩

theorem Env.ended_takeTick {e : Env} (hgoing : e.ended = none) (tick : Tick) :
    (e.takeTick tick).val.ended = none ∨ (e.takeTick tick).val.ended = some .liquidated := by
  obtain ⟨ended, htaken, hended⟩ := e.takeTick_eq tick
  have hne := hended (by rw [hgoing]; exact nofun)
  rw [htaken]
  show ended = none ∨ ended = some .liquidated
  rcases ended with _ | _ | _
  · exact Or.inl rfl
  · exact absurd rfl hne
  · exact Or.inr rfl

/-- What the agent is shown at a tick is the next thing the strategy is shown. -/
theorem Beside.shown_one (hb : Beside c actions e h) (tick : Tick) (later : List Observation) :
    h.strategy.seen.map Backtest.Context.sight ++ [(e.takeTick tick).val.observe.sight] <+:
      (later.foldlM (Host.observe c replay) (h.onTick c replay tick).val).val.strategy.seen.map
        Backtest.Context.sight := by
  have hseen := seen_onTick c h tick
  have hrun := (seen_run c later (h.onTick c replay tick).val).map Backtest.Context.sight
  rw [show (h.onTick c replay tick).val.strategy.seen = _ from hseen, List.map_append,
    List.map_singleton, (hb.deliver tick).1] at hrun
  exact hrun

/-- The action of a tick is taken on both sides, and what the strategy was shown at it is what the
agent was. -/
theorem Beside.onTick {e : Env} {q : Cash} {tick : Tick} {action : Action} {rest : List Action}
    (hb : Beside c (action :: rest) e h) (hget : e.stream[e.cursor - 1]? = some (.tick tick))
    (htimely : ((e.takeTick tick).val.counted q).Timely action) :
    Beside c rest (((e.takeTick tick).val.counted q).place action).val
        (h.onTick c replay tick).val ∧
      (h.onTick c replay tick).val.strategy.seen.map Backtest.Context.sight =
        h.strategy.seen.map Backtest.Context.sight ++ [(e.takeTick tick).val.observe.sight] := by
  obtain ⟨hsight, htwin, hnow, hfunding⟩ := hb.deliver tick
  obtain ⟨hconfig, hinstrument, hnextId, hstream, hcursor⟩ := e.takeTick_same tick
  have hstep := (deliver_replay c h tick).2.2
  have hlast : ((e.takeTick tick).val.counted q).lastTick = some tick := by
    unfold Env.lastTick
    show (match (e.takeTick tick).val.stream[(e.takeTick tick).val.cursor - 1]? with
      | some (.tick tick) => some tick | _ => none) = _
    rw [hstream, hcursor, hget]
  obtain ⟨hb', hseen⟩ := Beside.act (e := (e.takeTick tick).val.counted q) (h := h) htwin
    (hconfig.trans hb.config) (hinstrument.trans hb.instrument) hnow hsight rfl hstep
    hb.actions (hb.nextId.trans hnextId.symm) hfunding
    (htimely.imp_right (Or.imp_left (fun hone => hone tick hlast)))
  have hhost : (h.onTick c replay tick).val =
      ((h.deliver c replay tick).val.2.foldlM (Host.act c replay tick.stamp)
        (h.deliver c replay tick).val.1).val := by
    unfold Host.onTick
    rw [val_bind]
  rw [hhost, hseen, List.map_append, List.map_singleton, hsight]
  exact ⟨hb', rfl⟩

/-- **From any point on**, an episode shows the agent what the run shows the strategy. -/
theorem Beside.shown {e : Env} {h : Host Replay} (hb : Beside c actions e h)
    (hgoing : e.ended = none) {obs : List Observation} (hobs : e.stream.drop e.cursor = obs)
    (q : Cash) (htimely : ((e.advance obs).val.counted q).RunTimely actions) :
    h.strategy.seen.map Backtest.Context.sight ++ (((e.advance obs).val.counted q).shown
        (e.advance obs).val.observe actions).map Observed.sight <+:
      (obs.foldlM (Host.observe c replay) h).val.strategy.seen.map Backtest.Context.sight := by
  induction actions generalizing e h obs q with
  | nil =>
    rcases hb.toTick hgoing hobs with hout | hnext
    · rw [Env.shown_of_exhausted (e := (e.advance obs).val.counted q) hout, List.map_nil,
        List.append_nil]
      exact (seen_run c obs h).map _
    · obtain ⟨e₀, h₀, tick, later, hb₀, hgoing₀, -, -, hadvance, hsame, hrun⟩ := hnext
      rw [hadvance, hrun, ← hsame]
      have hshown : ((e₀.takeTick tick).val.counted q).shown (e₀.takeTick tick).val.observe [] =
          [(e₀.takeTick tick).val.observe] := by
        refine if_neg ?_
        rcases Env.ended_takeTick hgoing₀ tick with hended | hended
        · exact fun h => nomatch hended.symm.trans h
        · exact fun h => nomatch hended.symm.trans h
      rw [hshown]
      exact hb₀.shown_one tick later
  | cons action rest ih =>
    rcases hb.toTick hgoing hobs with hout | hnext
    · rw [Env.shown_of_exhausted (e := (e.advance obs).val.counted q) hout, List.map_nil,
        List.append_nil]
      exact (seen_run c obs h).map _
    · obtain ⟨e₀, h₀, tick, later, hb₀, hgoing₀, hget, hlater, hadvance, hsame, hrun⟩ := hnext
      rw [hadvance] at htimely ⊢
      rw [hrun, ← hsame]
      rcases Env.ended_takeTick hgoing₀ tick with hended | hended
      · -- the episode goes on: the action is taken on both sides
        obtain ⟨hat, hafter⟩ := htimely hended
        obtain ⟨hb₁, hseen⟩ := hb₀.onTick hget hat
        obtain ⟨-, -, -, hstream, hcursor⟩ := e₀.takeTick_same tick
        generalize (e₀.takeTick tick).val = e₁ at *
        obtain ⟨hstream₁, hcursor₁, hended₁⟩ := (e₁.counted q).place_same action
        obtain ⟨hstep, hobserved⟩ := Env.step_eq (e := e₁.counted q) hended action
        have hdrop : ((e₁.counted q).place action).val.stream.drop
            ((e₁.counted q).place action).val.cursor = later := by
          rw [hstream₁, hcursor₁]
          show e₁.stream.drop e₁.cursor = later
          rw [hstream, hcursor, hlater]
        rw [hstep] at hafter
        unfold Env.advanceToTick at hafter hstep hobserved
        rw [hdrop] at hafter hstep hobserved
        have hrest := ih hb₁ (hended₁.trans hended) hdrop _ hafter
        have hshown : (e₁.counted q).shown e₁.observe (action :: rest) = e₁.observe ::
            (((e₁.counted q).step action).val.1).shown
              ((e₁.counted q).step action).val.2.observed rest := if_pos hended
        rw [hshown, hstep, hobserved, List.map_cons]
        rw [hseen, List.append_assoc] at hrest
        exact hrest
      · rw [Env.shown_of_liquidated (e := (e₀.takeTick tick).val.counted q) hended]
        exact hb₀.shown_one tick later

/-! ## Whole episodes -/

theorem state_eq (c : RunConfig) : state c = c.state := by
  unfold state RunConfig.state
  obtain ⟨_, _, _, _, _, _, margin, _, _, _, tier⟩ := c
  cases tier <;> cases margin <;> rfl

/-- An episode before its first observation. -/
def Env.fresh (e : Env) : Env :=
  { e with
    kernel := Kernel.new (state e.config)
    lastFunding := Int64.minValue
    cursor := 0
    nextId := 1
    lastEquity := e.config.startingBalance
    ended := none }

theorem Env.reset_eq (e : Env) :
    e.reset.val = ((e.fresh.advance e.stream).val.counted
        (e.fresh.advance e.stream).val.observe.equity,
      (e.fresh.advance e.stream).val.observe) := rfl

theorem Env.advance_same (obs : List Observation) (e : Env) :
    (e.advance obs).val.config = e.config ∧ (e.advance obs).val.instrument = e.instrument ∧
      (e.advance obs).val.stream = e.stream := by
  induction obs generalizing e with
  | nil => exact ⟨rfl, rfl, rfl⟩
  | cons o rest ih =>
    cases o with
    | tick tick =>
      obtain ⟨hconfig, hinstrument, -, hstream, -⟩ :=
        Env.takeTick_same { e with cursor := e.cursor + 1 } tick
      exact ⟨hconfig, hinstrument, hstream⟩
    | depth update => exact ih _
    | snapshot updateId bids asks => exact ih _
    | snapshotAt at_ updateId bids asks => exact ih _
    | gap at_ => exact ih _

/-- The first observation of an episode, and the environment that shows it. -/
def opened (c : RunConfig) (stream : List Observation) (seed : UInt64) : Env × Observed :=
  (Env.new c stream seed).val.reset.val

/-- An episode and a run start from one account. -/
theorem beside_start (hconfig : e.config = c) (hinstrument : e.instrument = c.instrument) :
    Beside c actions e.fresh (Host.start c ⟨actions, 1, []⟩) where
  twin := by
    show Kernel.Twin _ (Kernel.new (state e.config)) (Kernel.new c.state)
    rw [hconfig, state_eq]
    exact Kernel.Twin.refl c.holdings_state rfl
  config := hconfig
  instrument := hinstrument
  actions := rfl
  nextId := rfl
  funding := Or.inr rfl

/-- A run whose orders take ten to reach the venue. -/
def delayedConfig : RunConfig where
  equityEvery := 0
  trackMargin := false
  instrument := 7
  contract := ⟨10⟩
  table := Kernel.flatTable
  startingBalance := 10000
  margin := .enforced
  funding := .empty
  fees := Fees.none
  positionMode := .oneWay
  tier := .l1 ⟨.none, ⟨.fixed 10, .fixed 0⟩, ⟨0⟩⟩

/-- A tick at one price, at a time of the venue's and one of the host's. -/
def flatTick (exch local_ : Nanos) : Observation :=
  .tick ⟨⟨exch, local_⟩, 100, 100, 100, 100, 100, 10⟩

end Training
