/-
# Runs of a trader

A `World` is a trader with what is known of its orders.  A strategy is given the list of
the orders that it was told the end of (`Strategy.recorded`).  In a run in which an end is
reported only once the process knows whether the order landed, the map follows the venue
(`map_follows`); an order whose end is reported while its placement is still unanswered
goes into the map afterwards and stays there (`map_keeps_ended`).
-/
import OpenQuanter.OrderMap

namespace Live

variable {σ χ : Type} {landed : String → Prop}

/-! ## The calls of a trader -/

namespace Trader

/-- What a trader says of its orders. -/
def lives (t : Trader (σ × List OrderId)) (given known : List (OrderId × String))
    (told gone : List String) : Lives where
  live := t.live
  waiting := t.unanswered.map fun e => (e.1, e.2.1)
  given := given
  known := known
  told := told
  gone := gone
  log := t.strategy.2

variable {S : Strategy σ χ} {venue : Venue} {now : Nanos} {t t' : Trader (σ × List OrderId)}

/-- **Telling the strategy** keeps what was not answered. -/
theorem reportPlacements_recorded (S : Strategy σ χ) (now : Nanos)
    (t : Trader (σ × List OrderId)) (out : List Outcome) :
    (t.reportPlacements S.recorded now out).live = t.live ∧
      (t.reportPlacements S.recorded now out).process = t.process ∧
      (t.reportPlacements S.recorded now out).strategy.2 = t.strategy.2 ∧
      (t.reportPlacements S.recorded now out).unanswered.map (fun e => (e.1, e.2.1)) =
        t.unanswered.map (fun e => (e.1, e.2.1)) ++ out.filterMap Outcome.waits := by
  induction out generalizing t with
  | nil => exact ⟨rfl, rfl, rfl, (List.append_nil _).symm⟩
  | cons o out ih =>
    obtain ⟨hlive, hprocess, hlog, hwaits⟩ := ih (reportPlacement S.recorded now t o)
    unfold reportPlacements at *
    rw [List.foldl_cons, hlive, hprocess, hlog, hwaits]
    cases o with
    | unresolved id c why =>
      refine ⟨rfl, rfl, rfl, ?_⟩
      show (t.unanswered ++ [(id, c, now)]).map _ ++ _ = _ ++ ((id, c) :: _)
      rw [List.map_append, List.append_assoc]
      rfl
    | _ => exact ⟨rfl, rfl, rfl, rfl⟩

/-- Acting on what a strategy answered. -/
theorem acted_answering {x : Lives} (h : Follows landed x) (hlive : x.live = t.live)
    (hwaiting : x.waiting = t.unanswered.map fun e => (e.1, e.2.1))
    (hsettled : Settled t.process x) (hechoes : venue.Echoes)
    {told : (σ × List OrderId) × List Intent} (hlog : x.log = told.1.2)
    (hids : (x.given.map (·.1) ++ told.2.filterMap Intent.submits).Nodup) {out : List Outcome}
    (hanswer : t.answering S.recorded venue now told = some (t', out)) :
    let x' := t'.lives (x.given ++ out.filterMap Outcome.given)
      (x.known ++ out.filterMap Outcome.known) x.told x.gone
    Follows landed x' ∧ Settled t'.process x' := by
  unfold answering at hanswer
  rw [Option.bind_eq_bind, Option.bind_eq_some_iff] at hanswer
  obtain ⟨⟨t₁, out₁⟩, hacts, heq⟩ := hanswer
  obtain ⟨rfl, rfl⟩ := Prod.mk.inj (Option.some.inj heq)
  have hacted := acted_acts (t := { t with strategy := told.1, intents := told.2 }) h hlive hsettled
    hechoes hids hacts
  obtain ⟨hreport, hprocess, hreported, hwaits⟩ :=
    reportPlacements_recorded S now t₁ out₁
  have hlives : (t₁.reportPlacements S.recorded now out₁).lives
      (x.given ++ out₁.filterMap Outcome.given) (x.known ++ out₁.filterMap Outcome.known) x.told
        x.gone = x.after t₁.live out₁ := by
    unfold lives Lives.after
    rw [hreport, hwaits, hreported, hacted.strategy, hacted.unanswered, ← hwaiting, hlog]
  rw [hlives, hprocess]
  exact ⟨hacted.follows, hacted.settled⟩

/-- The entry a client id is translated by. -/
theorem localId_cases (t : Trader σ) (c : String) :
    (t.localId c = none ∧ ∀ f ∈ t.live, f.2 ≠ c) ∨
      ∃ f ∈ t.live, f.2 = c ∧ t.localId c = some (UInt64.ofNat f.1) := by
  unfold localId
  cases hfind : t.live.find? (·.2 = c) with
  | none =>
    refine .inl ⟨rfl, fun f hf hsame => ?_⟩
    exact List.find?_eq_none.mp hfind f hf (decide_eq_true hsame)
  | some f =>
    exact .inr ⟨f, List.mem_of_find?_eq_some hfind, by simpa using List.find?_some hfind, rfl⟩

/-- Forgetting takes the entries of a client id, where no key has two. -/
theorem live_forget (t : Trader σ) (hsorted : t.live.Pairwise fun a b => a.1 < b.1) (c : String) :
    (t.forget c).live.Sublist t.live ∧
      ∀ f, f ∈ (t.forget c).live ↔ f ∈ t.live ∧ f.2 ≠ c := by
  refine ⟨List.filter_sublist, fun f => ?_⟩
  show f ∈ t.live.filter _ ↔ _
  rw [List.mem_filter]
  refine and_congr_right fun hf => ?_
  rw [decide_eq_true_iff, List.mem_map]
  constructor
  · exact fun hnot hsame =>
      hnot ⟨f, List.mem_filter.mpr ⟨hf, decide_eq_true hsame⟩, rfl⟩
  · rintro hne ⟨g, hg, hkey⟩
    obtain ⟨hg, hsame⟩ := List.mem_filter.mp hg
    have hnodup : (t.live.map (·.1)).Nodup :=
      List.pairwise_map.mpr (hsorted.imp fun hlt heq => absurd hlt (by omega))
    rw [← List.inj_on_of_nodup_map hnodup hg hf hkey] at hne
    exact hne (of_decide_eq_true hsame)

/-- The order that is found when it is asked about. -/
def found (venue : Venue) (e : OrderId × String × Nanos) : Option (OrderId × String) :=
  match venue.orderStatus e.2.1 with
  | .ok (some _) => some (e.1, e.2.1)
  | _ => none

/-- **Chasing**: what is found goes into the map. -/
theorem follows_chase (now : Nanos) (venue : Venue)
    (unanswered : List (OrderId × String × Nanos)) {x : Lives} {c : Chased σ}
    (h : Follows landed x) (hlive : x.live = c.1.live)
    (hwaiting : x.waiting = c.2.2.map (fun e => (e.1, e.2.1)) ++
      unanswered.map fun e => (e.1, e.2.1))
    (hfinal : ∀ e ∈ unanswered, venue.orderStatus e.2.1 = .ok none →
      notFoundIsAnswerAfter ≤ satSub now e.2.2 → ¬ landed e.2.1) :
    let c' := unanswered.foldl (chaseOne venue now) c
    Follows landed
        { x with
          live := c'.1.live
          waiting := c'.2.2.map fun e => (e.1, e.2.1)
          known := x.known ++ unanswered.filterMap (found venue) } ∧
      c'.1.process = c.1.process ∧ c'.1.strategy = c.1.strategy := by
  induction unanswered generalizing x c with
  | nil =>
    rw [List.map_nil, List.append_nil] at hwaiting
    refine ⟨?_, rfl, rfl⟩
    simpa [← hlive, ← hwaiting] using h
  | cons e unanswered ih =>
    rw [List.forall_mem_cons] at hfinal
    rw [List.map_cons] at hwaiting
    simp only [List.foldl_cons]
    -- an order that is not answered about stays where it is, behind the others
    have hkept : chaseOne venue now c e = (c.1, c.2.1, c.2.2 ++ [e]) → found venue e = none →
        let c' := unanswered.foldl (chaseOne venue now) (chaseOne venue now c e)
        Follows landed
            { x with
              live := c'.1.live
              waiting := c'.2.2.map fun e => (e.1, e.2.1)
              known := x.known ++ (e :: unanswered).filterMap (found venue) } ∧
          c'.1.process = c.1.process ∧ c'.1.strategy = c.1.strategy := by
      intro hone hnone
      rw [hone, List.filterMap_cons_none hnone]
      exact ih (c := (c.1, c.2.1, c.2.2 ++ [e])) h hlive (by simpa using hwaiting) hfinal.2
    cases hstatus : venue.orderStatus e.2.1 with
    | error why =>
      exact hkept (by simp only [chaseOne, hstatus]) (by simp only [found, hstatus])
    | ok answer =>
      cases answer with
      | some ack =>
        have hone : chaseOne venue now c e =
            (c.1.rest e.1 e.2.1, c.2.1 ++ [(e.1, true)], c.2.2) := by
          simp only [chaseOne, hstatus]
        have hfound : found venue e = some (e.1, e.2.1) := by simp only [found, hstatus]
        rw [hone, List.filterMap_cons_some hfound]
        have hstep := h.found hwaiting
        rw [hlive] at hstep
        obtain ⟨hrest, hprocess, hstrategy⟩ := ih
          (c := (c.1.rest e.1 e.2.1, c.2.1 ++ [(e.1, true)], c.2.2)) hstep rfl rfl hfinal.2
        refine ⟨?_, hprocess, hstrategy⟩
        simpa using hrest
      | none =>
        by_cases hlate : notFoundIsAnswerAfter ≤ satSub now e.2.2
        · have hone : chaseOne venue now c e =
              ({ c.1 with
                closing := c.1.closing.erase e.1.toNat
                asked := c.1.asked.filter (·.1 ≠ e.1.toNat) }, c.2.1 ++ [(e.1, false)], c.2.2) := by
            simp only [chaseOne, hstatus, if_pos hlate]
          have hnone : found venue e = none := by simp only [found, hstatus]
          rw [hone, List.filterMap_cons_none hnone]
          have hstep := h.denied hwaiting (hfinal.1 hstatus hlate)
          have hrest := ih (c := ({ c.1 with
            closing := c.1.closing.erase e.1.toNat
            asked := c.1.asked.filter (·.1 ≠ e.1.toNat) }, c.2.1 ++ [(e.1, false)], c.2.2))
            hstep hlive rfl hfinal.2
          exact hrest
        · exact hkept (by simp only [chaseOne, hstatus, if_neg hlate])
            (by simp only [found, hstatus])

end Trader

/-! ## Runs -/

/-- A trader, the orders it was answered about, those of them that are known to have
landed, and the client ids whose end was reported. -/
structure World (σ : Type) where
  trader : Trader σ
  given : List (OrderId × String)
  known : List (OrderId × String)
  reported : List String

/-- One call of the trader. -/
inductive Op (χ : Type) where
  | tick (ctx : χ) (now : Nanos) (venue : Venue)
  | fill (fill : Fill) (ctx : χ) (now : Nanos) (venue : Venue)
  | venueClosed (closed : VenueClosed) (ctx : χ) (now : Nanos) (venue : Venue)
  | ended (clientId : String) (ending : Ending) (now : Nanos) (venue : Venue)
  | chase (now : Nanos) (venue : Venue)
  | withdrawOpening (venue : Venue)

/-- What the venue answers in it. -/
def Op.venue : Op χ → Venue
  | .tick _ _ venue => venue
  | .fill _ _ _ venue => venue
  | .venueClosed _ _ _ venue => venue
  | .ended _ _ _ venue => venue
  | .chase _ venue => venue
  | .withdrawOpening venue => venue

namespace World

def start (strategy : σ) (process : Process) : World (σ × List OrderId) :=
  ⟨Trader.new (strategy, []) process, [], [], []⟩

/-- The world after outcomes. -/
def answered (w : World σ) (r : Trader σ × List Outcome) : World σ :=
  { w with
    trader := r.1
    given := w.given ++ r.2.filterMap Outcome.given
    known := w.known ++ r.2.filterMap Outcome.known }

/-- Step; `none` is the process stopped. -/
def step (S : Strategy σ χ) (w : World σ) : Op χ → Option (World σ)
  | .tick ctx now venue => (w.trader.onTick S ctx now venue).map w.answered
  | .fill fill ctx now venue => (w.trader.onFill S fill ctx now venue).map w.answered
  | .venueClosed closed ctx now venue =>
    (w.trader.onVenueClosed S closed ctx now venue).map w.answered
  | .ended clientId ending now venue =>
    (w.trader.onEnded S clientId ending now venue).map fun r =>
      { w.answered r with reported := w.reported ++ [clientId] }
  | .chase now venue =>
    some
      { w with
        trader := (w.trader.chaseUnanswered S now venue).1
        known := w.known ++ w.trader.unanswered.filterMap (Trader.found venue) }
  | .withdrawOpening venue => some { w with trader := (w.trader.withdrawOpening venue).1 }

/-- What the strategy asks for in a call. -/
def intents (S : Strategy σ χ) (w : World σ) : Op χ → List Intent
  | .tick ctx _ _ => (S.onTick w.trader.strategy ctx).2
  | .fill fill ctx _ _ => (S.onFill w.trader.strategy fill ctx).2
  | .venueClosed closed ctx _ _ => (S.onVenueClosed w.trader.strategy closed ctx).2
  | .ended clientId ending _ _ =>
    match w.trader.localId clientId with
    | none => []
    | some id => (S.onEnded w.trader.strategy id ending).2
  | .chase _ _ => []
  | .withdrawOpening _ => []

/-- The strategy gives each order an id of its own.  The venue names orders as they were
named to it, does not report the end of an order that was not sent yet, and where it says
that it has no such order after the time for that has passed, the order never landed. -/
structure Allowed (S : Strategy σ χ) (landed : String → Prop) (w : World σ) (op : Op χ) :
    Prop where
  distinct : (w.given.map (·.1) ++ (w.intents S op).filterMap Intent.submits).Nodup
  echoes : op.venue.Echoes
  past : ∀ c ending now venue, op = .ended c ending now venue → w.trader.process.Past c
  final : ∀ now venue, op = .chase now venue → ∀ e ∈ w.trader.unanswered,
    venue.orderStatus e.2.1 = .ok none → notFoundIsAnswerAfter ≤ satSub now e.2.2 →
      ¬ landed e.2.1

/-- **The condition**: no end is reported of an order whose placement is unanswered. -/
def AnsweredFirst (w : World σ) (op : Op χ) : Prop :=
  ∀ c ending now venue, op = .ended c ending now venue →
    c ∉ w.trader.unanswered.map fun e => e.2.1

/-- Runs whose steps are allowed and meet a condition. -/
def Runs (S : Strategy σ χ) (landed : String → Prop)
    (met : World (σ × List OrderId) → Op χ → Prop) :
    World (σ × List OrderId) → World (σ × List OrderId) → Prop :=
  Relation.ReflTransGen fun w w' =>
    ∃ op, w.Allowed S.recorded landed op ∧ met w op ∧ w.step S.recorded op = some w'

/-- The order map follows the venue. -/
structure MapFollows (landed : String → Prop) (w : World (σ × List OrderId)) : Prop where
  /-- No two strategy ids map to one client id. -/
  one : (w.trader.live.map (·.2)).Nodup
  /-- What is known to have landed and was not reported to have ended is in the map. -/
  kept : ∀ e ∈ w.known, e.2 ∉ w.reported → (e.1.toNat, e.2) ∈ w.trader.live
  /-- What was reported to have ended is not. -/
  gone : ∀ c ∈ w.reported, c ∉ w.trader.live.map (·.2)
  /-- The strategy is told once of each end of an order that landed. -/
  once : ∀ e ∈ w.given, landed e.2 →
    w.trader.strategy.2.count e.1 = if e.2 ∈ w.reported then 1 else 0

/-- What a run keeps. -/
structure Holds (landed : String → Prop) (w : World (σ × List OrderId)) : Prop where
  follows : Follows landed (w.trader.lives w.given w.known w.reported w.reported)
  settled : Settled w.trader.process (w.trader.lives w.given w.known w.reported w.reported)

variable {w w' : World (σ × List OrderId)} {S : Strategy σ χ}

theorem holds_start (strategy : σ) (process : Process) :
    Holds landed (start strategy process) where
  follows :=
    { sorted := List.Pairwise.nil
      locals := List.nodup_nil
      clients := List.nodup_nil
      known := fun _ h => absurd h List.not_mem_nil
      live := fun f => ⟨fun h => absurd h List.not_mem_nil,
        fun ⟨_, h, _⟩ => absurd h List.not_mem_nil⟩
      once := List.nodup_nil
      waiting := fun _ h => absurd h List.not_mem_nil
      rest := fun _ h => absurd h List.not_mem_nil
      gone := fun _ h => absurd h List.not_mem_nil
      told := fun _ h => absurd h List.not_mem_nil
      count := fun _ h => absurd h List.not_mem_nil }
  settled c h := by
    rcases h with h | h
    · exact absurd h List.not_mem_nil
    · exact absurd h List.not_mem_nil

/-- A call that answers the strategy. -/
theorem Holds.answering (h : Holds landed w) {venue : Venue} {now : Nanos} (hechoes : venue.Echoes)
    {told : (σ × List OrderId) × List Intent} (hlog : told.1.2 = w.trader.strategy.2)
    (hids : (w.given.map (·.1) ++ told.2.filterMap Intent.submits).Nodup)
    {r : Trader (σ × List OrderId) × List Outcome}
    (hanswer : w.trader.answering S.recorded venue now told = some r) :
    Holds landed (w.answered r) := by
  obtain ⟨t', out⟩ := r
  obtain ⟨hfollows, hsettled⟩ := Trader.acted_answering h.follows rfl rfl h.settled hechoes
    hlog.symm hids hanswer
  exact ⟨hfollows, hsettled⟩

/-- The end of an order is reported. -/
theorem Holds.ended (h : Holds landed w) {c : String} {ending : Ending} {now : Nanos}
    {venue : Venue}
    (hallowed : w.Allowed S.recorded landed (.ended c ending now venue))
    (hfirst : c ∉ w.trader.unanswered.map fun e => e.2.1)
    {r : Trader (σ × List OrderId) × List Outcome}
    (hended : w.trader.onEnded S.recorded c ending now venue = some r) :
    Holds landed { w.answered r with reported := w.reported ++ [c] } := by
  have hpast := hallowed.past c ending now venue rfl
  have hids := hallowed.distinct
  have hwaits : c ∉ (w.trader.lives w.given w.known w.reported w.reported).waiting.map (·.2) := by
    simpa [Trader.lives] using hfirst
  -- the order is forgotten last, whatever was asked for in between
  have hforget : ∀ {t : Trader (σ × List OrderId)} {given known : List (OrderId × String)},
      Follows landed (t.lives given known (w.reported ++ [c]) w.reported) →
      Settled t.process (t.lives given known (w.reported ++ [c]) w.reported) →
      Holds landed ⟨t.forget c, given, known, w.reported ++ [c]⟩ := by
    intro t given known hfollows hsettled
    obtain ⟨hsub, hlive⟩ := t.live_forget hfollows.sorted c
    exact ⟨hfollows.forget (List.mem_append_right _ (List.mem_singleton_self _)) hsub hlive,
      hsettled⟩
  have htold : ∀ c', c' ∈ w.given.map (·.2) ∨ c' ∈ w.reported ++ [c] →
      w.trader.process.Past c' := by
    intro c' hc'
    rcases hc' with hc' | hc'
    · exact h.settled c' (.inl hc')
    · rcases List.mem_append.mp hc' with hc' | hc'
      · exact h.settled c' (.inr hc')
      · rwa [List.mem_singleton.mp hc']
  unfold Trader.onEnded at hended
  rcases w.trader.localId_cases c with ⟨hnone, hlive⟩ | ⟨f, hf, hsame, hsome⟩
  · rw [hnone] at hended
    obtain rfl := Option.some.inj hended
    have hholds : Holds landed ⟨w.trader.forget c, w.given, w.known, w.reported ++ [c]⟩ :=
      hforget (h.follows.tell_none hwaits hlive) htold
    simpa [answered] using hholds
  · obtain ⟨e, he, rfl, hnew⟩ := (h.follows.live f).mp hf
    simp only at hsame
    subst hsame
    rw [UInt64.ofNat_toNat] at hsome
    rw [intents, hsome] at hids
    rw [hsome] at hended
    simp only [Option.bind_eq_bind, Option.bind_eq_some_iff] at hended
    obtain ⟨⟨t', out⟩, hanswer, heq⟩ := hended
    obtain rfl := Option.some.inj heq
    have hfollows := h.follows.tell he hnew hwaits
    obtain ⟨hfollows', hsettled'⟩ := Trader.acted_answering hfollows rfl rfl htold
      hallowed.echoes rfl hids hanswer
    exact hforget hfollows' hsettled'

/-- **Step.** -/
theorem Holds.step (h : Holds landed w) {op : Op χ} (hallowed : w.Allowed S.recorded landed op)
    (hfirst : w.AnsweredFirst op) (hstep : w.step S.recorded op = some w') : Holds landed w' := by
  cases op with
  | tick ctx now venue =>
    obtain ⟨r, hanswer, rfl⟩ := Option.map_eq_some_iff.mp hstep
    exact h.answering hallowed.echoes rfl hallowed.distinct hanswer
  | fill fill ctx now venue =>
    obtain ⟨r, hanswer, rfl⟩ := Option.map_eq_some_iff.mp hstep
    exact h.answering hallowed.echoes rfl hallowed.distinct hanswer
  | venueClosed closed ctx now venue =>
    obtain ⟨r, hanswer, rfl⟩ := Option.map_eq_some_iff.mp hstep
    exact h.answering hallowed.echoes rfl hallowed.distinct hanswer
  | ended c ending now venue =>
    obtain ⟨r, hended, rfl⟩ := Option.map_eq_some_iff.mp hstep
    exact h.ended hallowed (hfirst c ending now venue rfl) hended
  | chase now venue =>
    obtain rfl := Option.some.inj hstep
    obtain ⟨hfollows, hprocess, hstrategy⟩ := Trader.follows_chase now venue
      w.trader.unanswered (c := ({ w.trader with unanswered := [] }, [], [])) h.follows rfl rfl
        (hallowed.final now venue rfl)
    have hlog : ((w.trader.chaseUnanswered S.recorded now venue).1).strategy.2 =
        w.trader.strategy.2 := by
      have hplaced : ∀ (settled : List (OrderId × Bool)) (s : σ × List OrderId),
          (settled.foldl (fun s e => S.recorded.onPlaced s e.1 e.2) s).2 = s.2 := by
        intro settled
        induction settled with
        | nil => exact fun _ => rfl
        | cons e settled ih => exact fun s => ih (S.recorded.onPlaced s e.1 e.2)
      exact (hplaced _ _).trans (congrArg Prod.snd hstrategy)
    refine ⟨?_, ?_⟩
    · unfold Trader.lives
      rw [hlog]
      exact hfollows
    · show Settled (w.trader.chaseUnanswered S.recorded now venue).1.process _
      have hsame : (w.trader.chaseUnanswered S.recorded now venue).1.process = w.trader.process :=
        hprocess
      rw [hsame]
      exact h.settled
  | withdrawOpening venue =>
    obtain rfl := Option.some.inj hstep
    exact ⟨h.follows, h.settled⟩

/-- What is kept is that the map follows. -/
theorem Holds.mapFollows (h : Holds landed w) : MapFollows landed w where
  one := h.follows.nodup_live
  kept e he hnew := (h.follows.live _).mpr ⟨e, he, rfl, hnew⟩
  gone c hc hmem := by
    obtain ⟨f, hf, rfl⟩ := List.mem_map.mp hmem
    obtain ⟨e, -, rfl, hgone⟩ := (h.follows.live f).mp hf
    exact hgone hc
  once e he hlanded := by
    rw [show w.trader.strategy.2.count e.1 = _ from h.follows.count e he]
    show (if e ∈ w.known ∧ e.2 ∈ w.reported then 1 else 0) = if e.2 ∈ w.reported then 1 else 0
    have hknown : e.2 ∈ w.reported → e ∈ w.known := by
      intro hreported
      rcases h.follows.rest e he with hknown | hwaits | hnot
      · exact hknown
      · exact absurd hreported (h.follows.waiting e hwaits).2.2
      · exact absurd hlanded hnot
    by_cases hreported : e.2 ∈ w.reported
    · rw [if_pos ⟨hknown hreported, hreported⟩, if_pos hreported]
    · rw [if_neg fun hboth => hreported hboth.2, if_neg hreported]

/-- **The order map follows the venue** in every run in which an end is reported only
once it is known whether the order landed. -/
theorem map_follows (S : Strategy σ χ) (landed : String → Prop) (strategy : σ) (process : Process)
    (w : World (σ × List OrderId))
    (hrun : Runs S landed AnsweredFirst (start strategy process) w) : MapFollows landed w := by
  have hholds : Holds landed w := by
    induction hrun with
    | refl => exact holds_start strategy process
    | tail _ hstep ih =>
      obtain ⟨op, hallowed, hfirst, hstep⟩ := hstep
      exact ih.step hallowed hfirst hstep
  exact hholds.mapFollows

/-! ### Two runs -/

/-- A strategy that asks for what it is told to. -/
def obedient : Strategy Unit (List Intent) where
  onTick s asked := (s, asked)
  onFill s _ asked := (s, asked)
  onVenueClosed s _ asked := (s, asked)
  onPlaced s _ _ := s
  onCancelFailed s _ _ := s
  onEnded s _ _ := (s, [])

/-- A session that keeps no journal. -/
def quietProcess : Process where
  session :=
    .connected "oq1" "-" "ETHUSDT" ⟨2, 3, 100_000_000⟩ .oneWay
      (RiskGate.new
        ⟨1000, 1000, 1_000_000_000_000_000, 1_000_000_000, 10, 10, 1_000_000_000⟩)
  placed := []
  stopped := false

/-- A venue that takes every order. -/
def taking : Venue where
  account _ := ⟨0, 100_000, 0⟩
  place c := .accepted ⟨c, "NEW"⟩
  orderStatus _ := .ok none
  cancel _ _ := .rejected "no such order"

/-- A venue that answers nothing. -/
def silent : Venue :=
  { taking with place := fun _ => .unknown "timeout", orderStatus := fun _ => .error "timeout" }

/-- A venue that has every order, and has filled it. -/
def filling : Venue := { taking with orderStatus := fun c => .ok (some ⟨c, "FILLED"⟩) }

theorem echoes_taking : taking.Echoes where
  place c ack h := by
    obtain rfl := Placed.accepted.inj h
    rfl
  orderStatus _ _ h := nomatch h

theorem echoes_silent : silent.Echoes where
  place _ _ h := nomatch h
  orderStatus _ _ h := nomatch h

theorem echoes_filling : filling.Echoes where
  place := echoes_taking.place
  orderStatus c ack h := by
    obtain rfl := Option.some.inj (Except.ok.inj h)
    rfl

/-- One order is asked for. -/
def oneOrder (venue : Venue) : Op (List Intent) :=
  .tick [.limit 7 .buy 100_000 5 .opening] 0 venue

/-- Its end is reported. -/
def oneEnd : Op (List Intent) := .ended "oq1-1" .filled 1_000_000_000 silent

def begun : World (Unit × List OrderId) := start () quietProcess

/-- The world after some calls. -/
def ran (ops : List (Op (List Intent))) : Option (World (Unit × List OrderId)) :=
  ops.foldlM (step obedient.recorded) begun

/-- One call more. -/
theorem runs_ran (met : World (Unit × List OrderId) → Op (List Intent) → Prop)
    (ops : List (Op (List Intent))) (op : Op (List Intent)) {w : World (Unit × List OrderId)}
    (hruns : Runs obedient landed met begun w) (hran : ran ops = some w)
    (hsome : (ran (ops ++ [op])).isSome = true)
    (hallowed : w.Allowed obedient.recorded landed op) (hmet : met w op) :
    ∃ w', ran (ops ++ [op]) = some w' ∧ Runs obedient landed met begun w' := by
  obtain ⟨w', hw'⟩ := Option.isSome_iff_exists.mp hsome
  refine ⟨w', hw', hruns.tail ⟨op, hallowed, hmet, ?_⟩⟩
  unfold ran at hw' hran
  rw [List.foldlM_append, hran] at hw'
  simpa using hw'

/-- An order is chosen once its sequence was used. -/
theorem past_first {p : Process} (hissued : p.session.issued = "oq1")
    (hseparator : p.session.separator = "-") (hsequence : p.session.ids.sequence = 1) :
    p.Past "oq1-1" := by
  intro n hn heq
  rw [hissued, hseparator] at heq
  have hone : "oq1-1" = IdRules.clientId "oq1" "-" 1 := by decide +kernel
  rw [hone] at heq
  rw [hsequence, IdRules.clientId_inj heq] at hn
  exact UInt64.lt_irrefl n hn

theorem allowed_oneOrder {venue : Venue} (hechoes : venue.Echoes) :
    begun.Allowed obedient.recorded landed (oneOrder venue) where
  distinct := List.nodup_singleton (7 : OrderId)
  echoes := hechoes
  past := nofun
  final := nofun

theorem allowed_oneEnd {w : World (Unit × List OrderId)} (hgiven : w.given = [(7, "oq1-1")])
    (hpast : w.trader.process.Past "oq1-1") : w.Allowed obedient.recorded landed oneEnd where
  distinct := by
    have hnone : w.intents obedient.recorded oneEnd = [] := by
      unfold intents oneEnd
      simp only
      split
      · rfl
      · rfl
    rw [hgiven, hnone]
    decide
  echoes := echoes_silent
  past c ending now venue h := by
    obtain ⟨rfl, -⟩ := Op.ended.inj h
    exact hpast
  final := nofun

/-- What the two runs are told by. -/
structure Facts where
  given : List (OrderId × String)
  reported : List String
  live : List (Nat × String)
  waits : List String
  log : List OrderId
  names : String × String × UInt64
  deriving DecidableEq

def facts (w : World (Unit × List OrderId)) : Facts where
  given := w.given
  reported := w.reported
  live := w.trader.live
  waits := w.trader.unanswered.map (·.2.1)
  log := w.trader.strategy.2
  names := (w.trader.process.session.issued, w.trader.process.session.separator,
    w.trader.process.session.ids.sequence)

/-- The first call of the two runs. -/
theorem ran_oneOrder (landed : String → Prop) {venue : Venue} {f : Facts} (hechoes : venue.Echoes)
    (met : World (Unit × List OrderId) → Op (List Intent) → Prop)
    (hmet : met begun (oneOrder venue)) (hfacts : (ran [oneOrder venue]).map facts = some f)
    (hgiven : f.given = [(7, "oq1-1")]) (hnames : f.names = ("oq1", "-", 1)) :
    ∃ w, ran [oneOrder venue] = some w ∧ facts w = f ∧ Runs obedient landed met begun w ∧
      w.Allowed obedient.recorded landed oneEnd := by
  obtain ⟨w, hran, rfl⟩ := Option.map_eq_some_iff.mp hfacts
  obtain ⟨w', hran', hruns⟩ := runs_ran met [] (oneOrder venue) (w := begun)
    Relation.ReflTransGen.refl rfl (by rw [List.nil_append, hran]; rfl)
    (allowed_oneOrder hechoes) hmet
  rw [List.nil_append, hran] at hran'
  obtain rfl := Option.some.inj hran'
  obtain ⟨hissued, hrest⟩ := Prod.mk.inj hnames
  obtain ⟨hseparator, hsequence⟩ := Prod.mk.inj hrest
  exact ⟨w, hran, rfl, hruns, allowed_oneEnd hgiven (past_first hissued hseparator hsequence)⟩

theorem map_follows_taken : ∃ w : World (Unit × List OrderId),
    ran [oneOrder taking, oneEnd] = some w ∧
      facts w = ⟨[(7, "oq1-1")], ["oq1-1"], [], [], [7], ("oq1", "-", 1)⟩ ∧
      MapFollows (fun _ => True) w := by
  have hfirst : (ran [oneOrder taking]).map facts =
      some ⟨[(7, "oq1-1")], [], [(7, "oq1-1")], [], [], ("oq1", "-", 1)⟩ := by
    decide +kernel
  obtain ⟨w₁, hran₁, hfacts₁, hruns₁, hallowed⟩ := ran_oneOrder (fun _ => True)
    echoes_taking AnsweredFirst nofun hfirst rfl rfl
  have hanswered : w₁.AnsweredFirst oneEnd := by
    intro c ending now venue _
    rw [show w₁.trader.unanswered.map (fun e => e.2.1) = [] from congrArg Facts.waits hfacts₁]
    exact List.not_mem_nil
  obtain ⟨w₂, hran₂, hruns₂⟩ := runs_ran AnsweredFirst _ oneEnd hruns₁ hran₁ (by decide +kernel)
    hallowed hanswered
  have hend : (ran [oneOrder taking, oneEnd]).map facts =
      some ⟨[(7, "oq1-1")], ["oq1-1"], [], [], [7], ("oq1", "-", 1)⟩ := by
    decide +kernel
  rw [show ran [oneOrder taking, oneEnd] = some w₂ from hran₂] at hend
  exact ⟨w₂, hran₂, Option.some.inj hend, map_follows obedient _ () quietProcess w₂ hruns₂⟩

/-- An order that nobody answered for is filled, its end is reported, and then it is found:
it goes into the map, and the strategy is never told of its end. -/
theorem map_keeps_ended : ∃ w : World (Unit × List OrderId),
    Runs obedient (fun _ => True) (fun _ _ => True) begun w ∧
      facts w = ⟨[(7, "oq1-1")], ["oq1-1"], [(7, "oq1-1")], [], [], ("oq1", "-", 1)⟩ ∧
      ¬ MapFollows (fun _ => True) w := by
  have hfirst : (ran [oneOrder silent]).map facts =
      some ⟨[(7, "oq1-1")], [], [], ["oq1-1"], [], ("oq1", "-", 1)⟩ := by
    decide +kernel
  obtain ⟨w₁, hran₁, -, hruns₁, hallowed⟩ := ran_oneOrder (fun _ => True) echoes_silent
    (fun _ _ => True) trivial hfirst rfl rfl
  obtain ⟨w₂, hran₂, hruns₂⟩ := runs_ran (fun _ _ => True) _ oneEnd hruns₁ hran₁
    (by decide +kernel) hallowed trivial
  have hsecond : (ran [oneOrder silent, oneEnd]).map facts =
      some ⟨[(7, "oq1-1")], ["oq1-1"], [], ["oq1-1"], [], ("oq1", "-", 1)⟩ := by
    decide +kernel
  rw [show ran [oneOrder silent, oneEnd] = some w₂ from hran₂] at hsecond
  have hchase : w₂.Allowed obedient.recorded (fun _ => True) (.chase 2_000_000_000 filling) := by
    refine ⟨?_, echoes_filling, nofun, fun now venue h e _ hstatus => ?_⟩
    · rw [show w₂.given = [(7, "oq1-1")] from congrArg Facts.given (Option.some.inj hsecond)]
      exact List.nodup_singleton (7 : OrderId)
    · obtain ⟨-, rfl⟩ := Op.chase.inj h
      cases hstatus
  obtain ⟨w₃, hran₃, hruns₃⟩ := runs_ran (fun _ _ => True) _ (.chase 2_000_000_000 filling) hruns₂
    hran₂ (by decide +kernel) hchase trivial
  have hend : (ran ([oneOrder silent] ++ [oneEnd] ++ [.chase 2_000_000_000 filling])).map facts =
      some ⟨[(7, "oq1-1")], ["oq1-1"], [(7, "oq1-1")], [], [], ("oq1", "-", 1)⟩ := by
    decide +kernel
  rw [hran₃] at hend
  have hfacts := Option.some.inj hend
  refine ⟨w₃, hruns₃, hfacts, fun h => h.gone "oq1-1" ?_ ?_⟩
  · rw [show w₃.reported = ["oq1-1"] from congrArg Facts.reported hfacts]
    exact List.mem_singleton_self _
  · rw [show w₃.trader.live = [(7, "oq1-1")] from congrArg Facts.live hfacts]
    exact List.mem_singleton_self _

end World

end Live
