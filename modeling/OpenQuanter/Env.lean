/-
# The training environment (`oq-env/src/lib.rs`)

An environment is the backtest pulled: the agent owns the loop, and a step places whatever
closes the gap between the position held and the target, then advances to the next tick.
-/
import OpenQuanter.Backtest

namespace Training

open Backtest (Context Observation RunConfig)

/-- What the agent asks for: a position, in lots. -/
structure Action where
  target : QtyLots
  deriving DecidableEq, Repr

/-- What the agent sees. -/
structure Observed where
  tick : Tick
  position : QtyLots
  entry : PriceTicks
  equity : Cash
  working : Nat
  deriving DecidableEq, Repr

/-- Why an episode ended. -/
inductive Ending where
  | exhausted
  | liquidated
  deriving DecidableEq, Repr

/-- The result of one step. -/
structure Step where
  observed : Observed
  reward : Cash
  equity : Cash
  done : Option Ending
  deriving DecidableEq, Repr

/-- One episode over one instrument. -/
structure Env where
  kernel : Kernel
  stream : List Observation
  cursor : Nat
  instrument : InstrumentId
  nextId : UInt64
  lastEquity : Cash
  ended : Option Ending
  config : RunConfig
  seed : UInt64
  /-- Funding is settled up to here. -/
  lastFunding : Nanos

/-- The matcher an environment builds for its configuration. -/
def matcher (c : RunConfig) : Matcher :=
  match c.tier with
  | .l0 => .l0 (L0Engine.new c.instrument)
  | .l1 policy => .l1 (L1Engine.new c.instrument policy)
  | .l2 policy => .l2 (L2Engine.new (L1Engine.new c.instrument policy))

/-- `Env::state`, the account before its matcher is chosen. -/
def account (c : RunConfig) : State :=
  ((State.new c.instrument c.contract c.table c.startingBalance).withFees c.fees).withMode
    c.positionMode

theorem instrument_matcher (c : RunConfig) :
    (matcher c).instrument = (account c).holding.engine.instrument := by
  unfold matcher
  cases c.tier <;> rfl

/-- `Env::state`. -/
def state (c : RunConfig) : State :=
  let state := (account c).matchingWith (matcher c) (instrument_matcher c)
  match c.margin with
  | .enforced => state
  | .ignored => state.withoutLiquidation

/-- Which side closes a gap. -/
def sideOf (delta : QtyLots) : Side := if 0 < delta then .buy else .sell

/-- Reducing when the trade shrinks exposure rather than when it reverses. -/
def offsetOf (held delta : QtyLots) : Offset :=
  if held ≠ 0 ∧ decide (0 < held) ≠ decide (0 < delta) then .closing else .opening

namespace Env

variable (e : Env)

/-- The state as the agent is shown it. -/
def observe : Observed :=
  let s := e.kernel.summary
  { tick := ⟨⟨s.now, s.now⟩, s.mark, s.mark, s.mark, s.mark, s.mark, 0⟩
    position := s.qty
    entry := s.entry
    equity := s.equity
    working := e.kernel.working.length }

/-- Take a kernel over; an episode ends when it reports a liquidation. -/
def moved (kernel : Kernel) : Env :=
  { e with
    kernel := kernel
    ended :=
      if kernel.outputs.any (fun o => o.liquidation?.isSome) then some .liquidated else e.ended }

/-- One settlement, on the position held until now. -/
def fund (e : Env) (rate : FundingRate) : Books Env := do
  let kernel ← e.kernel.apply (.funding none rate.at_ rate.rate rate.mark)
  pure (e.moved kernel)

/-- A tick: funding due since the last one, then the observation itself. -/
def takeTick (tick : Tick) : Books Env := do
  let due := e.config.funding.between e.lastFunding tick.stamp.exch
  let e : Env := { e with lastFunding := max e.lastFunding tick.stamp.exch }
  let e ← due.foldlM fund e
  let kernel ← e.kernel.apply (.tick (some e.instrument) tick)
  pure (e.moved kernel)

/-- Feed observations until one is a tick. -/
def advance : Env → List Observation → Books Env
  | e, [] => pure { e with ended := some (e.ended.getD .exhausted) }
  | e, observation :: rest =>
    let e := { e with cursor := e.cursor + 1 }
    match observation with
    | .depth update => advance { e with kernel := (e.kernel.applyDepth update).1 } rest
    | .snapshot updateId bids asks =>
      advance { e with kernel := (e.kernel.installSnapshot updateId bids asks).1 } rest
    | .snapshotAt at_ updateId bids asks =>
      advance { e with kernel := (e.kernel.installSnapshotAt at_ updateId bids asks).1 } rest
    | .gap _ => advance { e with kernel := e.kernel.applyDepthGap.1 } rest
    | .tick tick => e.takeTick tick

/-- `Env::advance_to_tick`, which also reports the state after it. -/
def advanceToTick : Books Env := e.advance (e.stream.drop e.cursor)

/-- Start the episode over: the kernel is rebuilt rather than rewound. -/
def reset : Books (Env × Observed) := do
  let e : Env :=
    { e with
      kernel := Kernel.new (state e.config)
      lastFunding := Int64.minValue
      cursor := 0
      nextId := 1
      lastEquity := e.config.startingBalance
      ended := none }
  let e ← e.advanceToTick
  pure ({ e with lastEquity := e.observe.equity }, e.observe)

def new (c : RunConfig) (stream : List Observation) (seed : UInt64) : Books Env := do
  let e : Env :=
    { kernel := Kernel.new (state c)
      stream := stream
      cursor := 0
      instrument := c.instrument
      nextId := 1
      lastEquity := c.startingBalance
      ended := none
      config := c
      seed := seed
      lastFunding := Int64.minValue }
  let (e, _) ← e.reset
  pure e

/-- How many observations remain. -/
def remaining : Nat := e.stream.length - e.cursor

/-- Place whatever closes the gap between the position held and the target. -/
def place (action : Action) : Books Env :=
  let held := e.kernel.summary.qty
  let delta := action.target - held
  if delta = 0 then pure e
  else do
    let now := e.kernel.summary.now
    let kernel ← e.kernel.apply
      (.submit (some e.instrument) e.nextId (sideOf delta) none delta.abs (offsetOf held delta)
        ⟨now, now⟩)
    pure (({ e with nextId := e.nextId + 1 } : Env).moved kernel)

/-- Take one step.  An episode that has ended answers the same step again. -/
def step (action : Action) : Books (Env × Step) :=
  match e.ended with
  | some ending => pure (e, ⟨e.observe, 0, e.observe.equity, some ending⟩)
  | none => do
    let e ← e.place action
    let e ← e.advanceToTick
    let reward := Cash.sub e.observe.equity e.lastEquity
    pure ({ e with lastEquity := e.observe.equity }, ⟨e.observe, reward, e.observe.equity, e.ended⟩)

end Env

end Training
