/-
# The register: which delay is which

Delays carry no names, and their ticks change while they wait, so the queue
alone does not tell what has become of a delay.  A register tells: it is opened
on a queue, whose delays get numbered tickets, and every event of a row is
entered into it (`Register.enter`).  A ticket moves where its delay moves: to the
end of the queue, into the hands of a drain, back to the front of the queue, or
into the list of firings, where it is noted with the clock and with how often
the queue has aged.  A delay that is scheduled later gets a ticket without a
number.

A register that shows what an engine and its drains have in hand (`Shows`) shows
it all along a timeline (`Timeline.shows`), so it is about the delays that are
really there, and the clock is on by as many ticks as there are clock steps in
the row (`Timeline.time_eq`).
-/

import Tabletop.Proofs.Ledger

namespace Tabletop

/-! ### Clock steps and agings -/

/-- Whether an event is a clock step. -/
def Event.isTick : Event → Bool
  | .ticked _ _ => true
  | _ => false

/-- Whether the queue ages with an event. -/
def Event.isAging : Event → Bool
  | .aged => true
  | _ => false

/-- Whether delays go back to the queue with an event. -/
def Event.isReturn : Event → Bool
  | .returned _ => true
  | _ => false

/-- How many clock steps a row of events has. -/
def ticksIn (es : List Event) : Nat := es.countP (·.isTick)

/-- How often the queue ages in a row of events. -/
def agingsIn (es : List Event) : Nat := es.countP (·.isAging)

/-- How many clock steps of a row do not come to age the queue. -/
def unfinished (es : List Event) : Int := ticksIn es - agingsIn es

variable {around : List Delay} {a b : Moment} {es fs : List Event}

@[simp]
theorem ticksIn_append (es fs : List Event) : ticksIn (es ++ fs) = ticksIn es + ticksIn fs :=
  List.countP_append

@[simp]
theorem agingsIn_append (es fs : List Event) :
    agingsIn (es ++ fs) = agingsIn es + agingsIn fs := List.countP_append

theorem ticksIn_cons (e : Event) (es : List Event) :
    ticksIn (e :: es) = ticksIn es + if e.isTick then 1 else 0 := List.countP_cons

theorem agingsIn_cons (e : Event) (es : List Event) :
    agingsIn (e :: es) = agingsIn es + if e.isAging then 1 else 0 := List.countP_cons

theorem unfinished_append (es fs : List Event) :
    unfinished (es ++ fs) = unfinished es + unfinished fs := by
  simp only [unfinished, ticksIn_append, agingsIn_append]
  omega

theorem unfinished_ticked (s : State) (held : List Delay) (es : List Event) :
    unfinished (.ticked s held :: es) = unfinished es + 1 := by
  simp only [unfinished, ticksIn_cons, agingsIn_cons, Event.isTick, Event.isAging]
  simp only [if_true, Bool.false_eq_true, if_false]
  omega

theorem unfinished_aged (es : List Event) : unfinished (.aged :: es) = unfinished es - 1 := by
  simp only [unfinished, ticksIn_cons, agingsIn_cons, Event.isTick, Event.isAging]
  simp only [if_true, Bool.false_eq_true, if_false]
  omega

theorem unfinished_begun (d : Delay) (es : List Event) :
    unfinished (.begun d :: es) = unfinished es := by
  simp [unfinished, ticksIn_cons, agingsIn_cons, Event.isTick, Event.isAging]

/-- A run may leave clock steps unfinished; one that ends well leaves none, and puts
nothing back to the queue. -/
structure Settled (ok : Bool) (es : List Event) : Prop where
  nonneg : 0 ≤ unfinished es
  none : ok = true → unfinished es = 0
  kept : ok = true → ∀ e ∈ es, e.isReturn = false

/-- **A run that ends well finishes its clock steps.** -/
theorem settled_law : RowLaw Settled where
  nil _ := ⟨Int.le_refl 0, fun _ => rfl, fun _ _ he => nomatch he⟩
  touched := ⟨Int.le_refl 0, fun _ => rfl, fun _ e he => by cases List.mem_singleton.1 he; rfl⟩
  scheduled _ := ⟨Int.le_refl 0, fun _ => rfl, fun _ e he => by cases List.mem_singleton.1 he; rfl⟩
  taken _ := ⟨Int.le_refl 0, fun _ => rfl, fun _ e he => by cases List.mem_singleton.1 he; rfl⟩
  append {ok es fs} hes hfs := by
    have sum : unfinished (es ++ fs) = unfinished fs := by
      rw [unfinished_append, hes.none rfl, Int.zero_add]
    refine ⟨sum ▸ hfs.nonneg, fun hok => sum ▸ hfs.none hok, fun hok e he => ?_⟩
    rcases List.mem_append.1 he with he | he
    · exact hes.kept rfl e he
    · exact hfs.kept hok e he
  aged {ok es fs s held} hes hfs := by
    have sum : unfinished (.ticked s held :: (es ++ .aged :: fs)) = unfinished fs := by
      rw [unfinished_ticked, unfinished_append, unfinished_aged, hes.none rfl]
      omega
    refine ⟨sum ▸ hfs.nonneg, fun hok => sum ▸ hfs.none hok, fun hok e he => ?_⟩
    simp only [List.mem_cons, List.mem_append] at he
    rcases he with rfl | he | rfl | he
    · rfl
    · exact hes.kept rfl e he
    · rfl
    · exact hfs.kept hok e he
  broken {es s held} hes := by
    refine ⟨?_, nofun, nofun⟩
    have := hes.nonneg
    rw [unfinished_ticked]
    omega
  fired {ok es fs d} hes hfs := by
    have sum : unfinished (.begun d :: (es ++ fs)) = unfinished fs := by
      rw [unfinished_begun, unfinished_append, hes.none rfl, Int.zero_add]
    refine ⟨sum ▸ hfs.nonneg, fun hok => sum ▸ hfs.none hok, fun hok e he => ?_⟩
    simp only [List.mem_cons, List.mem_append] at he
    rcases he with rfl | he | he
    · rfl
    · exact hes.kept rfl e he
    · exact hfs.kept hok e he
  failed {es d held} hes := by
    refine ⟨?_, nofun, nofun⟩
    rw [unfinished_begun, unfinished_append]
    exact (Int.add_zero _).symm ▸ hes.nonneg

/-! ### Tickets -/

/-- A delay with its number in the queue on which the register was opened, if it was
there. -/
structure Ticket where
  number : Option Nat
  delay : Delay

namespace Ticket

/-- A ticket whose delay is due. -/
def isDue (t : Ticket) : Bool := t.delay.isDue

/-- A ticket that was in the queue at the start. -/
def isNumbered (t : Ticket) : Bool := t.number.isSome

/-- The ticket one tick later. -/
def age (t : Ticket) : Ticket := { t with delay := t.delay.age }

end Ticket

/-- A ticket whose delay begins to fire, with the clock and with how often the queue
has aged by then. -/
structure Firing where
  ticket : Ticket
  clock : Int
  agings : Nat

/-- Where the tickets are: in the hands of drains, in the queue, or fired. -/
structure Register where
  clock : Int
  agings : Nat := 0
  held : List Ticket := []
  queue : List Ticket
  firings : List Firing := []

namespace Register

/-- The register opened on an engine: the delays of its queue are numbered. -/
def opening (g : Engine) : Register :=
  { clock := g.state.time, queue := g.queue.zipIdx.map fun (d, i) => ⟨some i, d⟩ }

/-- Enters an event. -/
def enter (s : Register) : Event → Register
  | .touched => s
  | .scheduled d => { s with queue := s.queue ++ [⟨none, d⟩] }
  | .ticked _ _ => { s with clock := s.clock + 1 }
  | .aged => { s with agings := s.agings + 1, queue := s.queue.map (·.age) }
  | .taken _ =>
    { s with held := s.queue.filter (·.isDue) ++ s.held, queue := s.queue.filter (!·.isDue) }
  | .begun _ =>
    { s with
      held := s.held.tail
      firings := s.firings ++ (s.held.take 1).map fun t => ⟨t, s.clock, s.agings⟩ }
  | .returned rest =>
    { s with held := s.held.drop rest.length, queue := s.held.take rest.length ++ s.queue }

/-- Enters the events of a row. -/
def follow (s : Register) (es : List Event) : Register := es.foldl enter s

/-- The register shows what is held and queued, and what has begun to fire. -/
structure Shows (s : Register) (fired held : List Delay) (g : Engine) : Prop where
  clock : s.clock = g.state.time
  held : s.held.map (·.delay) = held
  queue : s.queue.map (·.delay) = g.queue
  fired : s.firings.map (·.ticket.delay) = fired

variable {s : Register} {fired held : List Delay} {g : Engine}

@[simp]
theorem follow_cons (s : Register) (e : Event) (es : List Event) :
    s.follow (e :: es) = (s.enter e).follow es := rfl

@[simp]
theorem follow_append (s : Register) (es fs : List Event) :
    s.follow (es ++ fs) = (s.follow es).follow fs := List.foldl_append

theorem shows_opening (g : Engine) : (opening g).Shows [] [] g where
  clock := rfl
  held := rfl
  queue := by
    rw [opening, List.map_map]
    exact List.zipIdx_map_fst 0 g.queue
  fired := rfl

/-- A register shows what is due. -/
theorem Shows.due_eq (hs : s.Shows fired held g) :
    Clock.due g = (s.queue.filter (·.isDue)).map (·.delay) := by
  rw [Clock.due_eq, ← hs.queue, List.filter_map]
  rfl

/-- The tickets of an opened register are numbered by the places of their delays. -/
theorem mem_opening {t : Ticket} : t ∈ (opening g).queue ↔
    ∃ i, t.number = some i ∧ g.queue[i]? = some t.delay := by
  simp only [opening, List.mem_map, Prod.exists, List.mem_zipIdx_iff_getElem?]
  constructor
  · rintro ⟨d, i, hd, rfl⟩
    exact ⟨i, rfl, hd⟩
  · rintro ⟨i, hi, hd⟩
    exact ⟨t.delay, i, hd, by rw [← hi]⟩

/-! ### What entering an event does -/

theorem clock_enter (s : Register) (e : Event) :
    (s.enter e).clock = s.clock + if e.isTick then 1 else 0 := by
  cases e <;> first | rfl | exact (Int.add_zero _).symm

theorem agings_enter (s : Register) (e : Event) :
    (s.enter e).agings = s.agings + if e.isAging then 1 else 0 := by
  cases e <;> rfl

theorem clock_follow (s : Register) (es : List Event) :
    (s.follow es).clock = s.clock + ticksIn es := by
  induction es generalizing s with
  | nil => exact (Int.add_zero _).symm
  | cons e es ih =>
    rw [follow_cons, ih, clock_enter, ticksIn_cons]
    split <;> push_cast <;> omega

theorem agings_follow (s : Register) (es : List Event) :
    (s.follow es).agings = s.agings + agingsIn es := by
  induction es generalizing s with
  | nil => rfl
  | cons e es ih =>
    rw [follow_cons, ih, agings_enter, agingsIn_cons]
    omega

end Register

/-! ### Registers along timelines -/

variable {s : Register} {fired : List Delay}

/-- **A stroke and its entry show the same.** -/
theorem Stroke.shows {e : Event} (k : Stroke around a e b)
    (hs : s.Shows fired (a.held ++ around) a.engine) :
    (s.enter e).Shows (fired ++ e.begins) (b.held ++ around) b.engine := by
  have fired_eq : fired ++ [] = fired := List.append_nil fired
  cases k with
  | touch t =>
    have keeps := t.effect.keeps
    exact
      { clock := hs.clock.trans keeps.time.symm
        held := hs.held
        queue := by rw [Engine.queue, keeps.delays]; exact hs.queue
        fired := hs.fired.trans fired_eq.symm }
  | schedule callback ticks scope =>
    exact
      { clock := hs.clock
        held := hs.held
        queue := by
          rw [Clock.queue_schedule, ← hs.queue]
          exact List.map_append
        fired := hs.fired.trans fired_eq.symm }
  | @tick g =>
    exact
      { clock := congrArg (· + 1) hs.clock
        held := hs.held
        queue := hs.queue
        fired := hs.fired.trans fired_eq.symm }
  | @age g =>
    have queue : (Clock.age g).queue = g.queue.map Delay.age := Series.toList_map _ _
    exact
      { clock := hs.clock
        held := hs.held
        queue := by
          rw [queue, ← hs.queue]
          simp only [Register.enter, List.map_map]
          rfl
        fired := hs.fired.trans fired_eq.symm }
  | @take g =>
    exact
      { clock := hs.clock
        held := by
          rw [hs.due_eq]
          simp only [Register.enter, List.map_append, hs.held]
          rfl
        queue := by
          rw [Clock.queue_withoutDue, ← hs.queue, List.filter_map]
          rfl
        fired := hs.fired.trans fired_eq.symm }

/-- The first ticket that is held goes to the firings when its delay begins to fire. -/
theorem Register.Shows.begun {d : Delay} {held : List Delay} {g : Engine}
    (hs : s.Shows fired (d :: held) g) :
    (s.enter (.begun d)).Shows (fired ++ [d]) held g := by
  obtain ⟨t, rest, ht, hd, hrest⟩ := List.map_eq_cons_iff.1 hs.held
  exact
    { clock := hs.clock
      held := by
        simp only [Register.enter, ht, List.tail_cons]
        exact hrest
      queue := hs.queue
      fired := by
        simp only [Register.enter, ht, List.map_append, hs.fired]
        simp [hd] }

/-- What is held of a drain that fails goes back to the front of the queue. -/
theorem Register.Shows.returned {g : Engine} (held : List Delay)
    (hs : s.Shows fired (held ++ around) g) :
    (s.enter (.returned held)).Shows fired around (Clock.requeue held g) where
  clock := hs.clock
  held := by
    simp only [Register.enter, List.map_drop, hs.held]
    exact List.drop_left
  queue := by
    simp only [Register.enter, List.map_append, List.map_take, hs.held, hs.queue,
      Clock.queue_requeue]
    rw [List.take_left]
  fired := hs.fired

/-- **A register shows what is in hand all along a timeline.** -/
theorem Timeline.shows (t : Timeline around a es b)
    (hs : s.Shows fired (a.held ++ around) a.engine) :
    (s.follow es).Shows (fired ++ es.flatMap (·.begins)) (b.held ++ around) b.engine := by
  induction t generalizing s fired with
  | nil =>
    rw [List.flatMap_nil, List.append_nil]
    exact hs
  | cons k _ ih =>
    rw [List.flatMap_cons, ← List.append_assoc]
    exact ih (k.shows hs)
  | @fired around held d g m c fuel es fs _ _ _ ihInner ih =>
    -- While the delay fires, what is left of the drain counts as held around it.
    have rest := ih (ihInner hs.begun)
    simpa only [Register.follow_cons, Register.follow_append, List.flatMap_cons,
      List.flatMap_append, Event.begins, List.append_assoc] using rest
  | @failed around held d g m c fuel fault es fs _ _ _ ihInner ih =>
    have rest := ih (Register.Shows.returned held (ihInner hs.begun))
    simpa only [Register.follow_cons, Register.follow_append, List.flatMap_cons,
      List.flatMap_append, Event.begins, List.nil_append, List.append_assoc] using rest

/-- **The clock is on by the clock steps of the row.** -/
theorem Timeline.time_eq (t : Timeline around a es b) :
    b.engine.state.time = a.engine.state.time + ticksIn es := by
  have unnumbered (ds : List Delay) :
      (ds.map fun d => (⟨none, d⟩ : Ticket)).map (·.delay) = ds := by
    rw [List.map_map]
    exact List.map_id ds
  let s : Register :=
    { clock := a.engine.state.time
      held := (a.held ++ around).map fun d => ⟨none, d⟩
      queue := a.engine.queue.map fun d => ⟨none, d⟩ }
  have start : s.Shows [] (a.held ++ around) a.engine :=
    { clock := rfl
      held := unnumbered _
      queue := unnumbered _
      fired := rfl }
  rw [← (t.shows start).clock, Register.clock_follow]

end Tabletop
