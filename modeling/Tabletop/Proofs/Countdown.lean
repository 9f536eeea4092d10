/-
# Counting down: no decrement ever saturates

A clock step takes one tick off every delay in the queue, and a delay that has the least
integer of ticks keeps them.  It never comes to that.  A step is taken behind a drain that
ended well, and such a drain leaves nothing due.  What the tick rule then schedules has no
ticks left at worst, and what it sets going leaves the queue so if it ends well, however
deep inside it time passes.  So no counter is negative when the queue is aged, none is
below `-1` after that, and what a failing callback puts back had been taken out of such a
queue.

That no counter is negative at a decrement is said of every decrement of a run, also of
runs that fail or have no outcome: in place of the decrement there is put one that is exact
where no counter is negative, and anything at all elsewhere (`Clock.guarded`).  The runs of
reachable engines stay the same (`Reachable.counters_in_range`).  Runs by another decrement
are the runs of the interpreter but for that one place (`Operation.runBy_age`).
-/

import Tabletop.Proofs.Ageing
import Tabletop.Proofs.Span

namespace Tabletop

/-! ### Another decrement -/

namespace Clock

/-- One clock step, with what makes the delays older. -/
def stepBy (age : Run Unit) (fire : Delay → Run Unit) (tick : Run Unit) (scans : Nat) :
    Run Unit := do
  Run.update Engine.record
  Run.update advance
  tick
  age
  drain fire scans

/-- Clock steps, as many as given, with what makes the delays older. -/
def stepsBy (age : Run Unit) (fire : Delay → Run Unit) (tick : Run Unit) (scans : Nat) :
    Nat → Run Unit
  | 0 => return ()
  | n + 1 => do
    stepBy age fire tick scans
    stepsBy age fire tick scans n

/-- Lets time pass, with what makes the delays older. -/
def passBy (age : Run Unit) (fire : Delay → Run Unit) (tick : Run Unit) (scans : Nat)
    (n : Int) : Run Unit := do
  drain fire scans
  stepsBy age fire tick scans n.toNat

end Clock

/-- What a script can set going on an amount of fuel, with what makes the delays older. -/
def powersBy (age : Run Unit) : Nat → Powers
  | 0 => powers 0
  | fuel + 1 =>
    let run := Interpreter.run (powersBy age fuel)
    { test := Move.test run
      perform := Move.perform run
      pass := Clock.passBy age (Delay.fire run) (Move.tickRule run) fuel }

/-- Does an operation on an amount of fuel, with what makes the delays older. -/
def Operation.runBy (age : Run Unit) (fuel : Nat) : Operation → Run Unit :=
  let run := Interpreter.run (powersBy age fuel)
  runWith run (Clock.passBy age (Delay.fire run) (Move.tickRule run) fuel)
    (Clock.drain (Delay.fire run) fuel)

section

variable {fire : Delay → Run Unit} {tick : Run Unit} {scans : Nat}

theorem Clock.stepsBy_age (n : Nat) :
    stepsBy (Run.update age) fire tick scans n = steps fire tick scans n := by
  induction n with
  | zero => rfl
  | succ n ih =>
    rw [stepsBy, ih]
    rfl

theorem Clock.passBy_age (n : Int) :
    passBy (Run.update age) fire tick scans n = pass fire tick scans n := by
  rw [passBy, stepsBy_age]
  rfl

theorem powersBy_age (fuel : Nat) : powersBy (Run.update Clock.age) fuel = powers fuel := by
  induction fuel with
  | zero => rfl
  | succ fuel ih =>
    simp only [powersBy, ih, powers, Powers.mk.injEq, true_and]
    exact funext Clock.passBy_age

/-- **With the decrement of the clock, operations are what they are.** -/
theorem Operation.runBy_age (op : Operation) (fuel : Nat) :
    op.runBy (Run.update Clock.age) fuel = op.run fuel := by
  have pass : Clock.passBy (Run.update Clock.age) (Delay.fire (runner fuel))
      (Move.tickRule (runner fuel)) fuel = Game.pass fuel := funext Clock.passBy_age
  rw [op.run_eq_runWith, runBy, powersBy_age]
  exact congrArg (op.runWith (runner fuel) · (Game.drain fuel)) pass

end

namespace Clock

/-- Takes exactly one tick off every delay. -/
def countDown (g : Engine) : Engine :=
  { g with state := { g.state with delays := g.state.delays.map (·.less 1) } }

/-- Takes exactly one tick off every delay if none has fewer than no ticks left, and
otherwise sets off an alarm. -/
def guarded (alarm : Run Unit) : Run Unit := fun g =>
  if ∀ d ∈ g.queue, 0 ≤ d.ticks then some (.ok (), countDown g) else alarm g

end Clock

/-! ### Counters -/

/-- Every delay in the queue has so many ticks left, or more. -/
def State.TicksFrom (least : Int) (s : State) : Prop := ∀ d ∈ s.delays.toList, least ≤ d.ticks

/-- No delay in the queue has fewer than `-1` ticks left, now and in every frame. -/
def Engine.Counted (g : Engine) : Prop := g.Always (·.TicksFrom (-1))

variable {g h : Engine}

/-- Where no counter is negative, ageing is exact. -/
theorem Clock.age_eq_countDown (h : g.state.TicksFrom 0) : age g = countDown g := by
  have same : g.state.delays.map (·.age) = g.state.delays.map (·.less 1) := by
    rw [← Series.toList_inj, Series.toList_map, Series.toList_map]
    exact List.map_congr_left fun d hd => Delay.age_eq_less (h d hd)
  rw [age, same]
  rfl

/-- Where no counter is negative, no alarm is set off. -/
theorem Clock.guarded_apply (alarm : Run Unit) (h : g.state.TicksFrom 0) :
    guarded alarm g = some (.ok (), age g) := by
  rw [age_eq_countDown h]
  exact if_pos h

/-- Where nothing is due, no counter is negative. -/
theorem Clock.ticksFrom_of_due (h : due g = []) : g.state.TicksFrom 0 := by
  intro d hd
  rw [due_eq, List.filter_eq_nil_iff] at h
  have waits := h d hd
  simp only [Delay.isDue, decide_eq_true_eq] at waits
  omega

namespace Engine.Counted

theorem queue (hg : g.Counted) : g.state.TicksFrom (-1) := hg _ List.mem_cons_self

/-- Another queue, with counters in range. -/
theorem withQueue (hg : g.Counted) {delays : Series Delay}
    (hd : ∀ d ∈ delays.toList, -1 ≤ d.ticks) :
    Engine.Counted { g with state := { g.state with delays } } :=
  Always.of_state hg hd rfl

/-- What is put back had counters in range. -/
theorem requeue (hg : g.Counted) {ds : List Delay} (hd : ∀ d ∈ ds, -1 ≤ d.ticks) :
    (Clock.requeue ds g).Counted := by
  refine hg.withQueue fun d mem => ?_
  rw [Series.toList_ofList] at mem
  rcases List.mem_append.1 mem with mem | mem
  · exact hd d mem
  · exact hg.queue d mem

theorem withoutDue (hg : g.Counted) : (Clock.withoutDue g).Counted :=
  hg.withQueue fun d mem => hg.queue d (State.mem_takeDue_snd.1 mem).1

/-- Where no counter is negative, none is below `-1` one tick later. -/
theorem age (hg : g.Counted) (h : g.state.TicksFrom 0) : (Clock.age g).Counted := by
  rw [Clock.age_eq_countDown h]
  refine hg.withQueue fun d mem => ?_
  rw [Series.toList_map] at mem
  obtain ⟨older, waits, rfl⟩ := List.mem_map.1 mem
  have left := h older waits
  simp only [Delay.less]
  omega

end Engine.Counted

/-! ### Runs that count alike -/

/-- Two runs are one at an engine, and leave counters in range. -/
structure SameAt (g : Engine) {α : Type} (x y : Run α) : Prop where
  same : x g = y g
  counted : ∀ {r h}, y g = some (r, h) → h.Counted

/-- Two runs are one wherever counters are in range, and none is negative after the second
has ended well if none was before. -/
structure CountsAlike {α : Type} (x y : Run α) : Prop where
  sameAt : ∀ {g}, g.Counted → SameAt g x y
  ready : ∀ {g a h}, y g = some (.ok a, h) → g.state.TicksFrom 0 → h.state.TicksFrom 0

namespace SameAt

variable {α β : Type} {x y : Run α}

theorem result (hg : g.Counted) (a : α) : SameAt g (pure a) (pure a) where
  same := rfl
  counted k := by
    cases k
    exact hg

/-- Runs that go on elsewhere. -/
theorem elsewhere {v w : Run α} (hx : x g = v h) (hy : y g = w h) (k : SameAt h v w) :
    SameAt g x y where
  same := by rw [hx, hy, k.same]
  counted e := k.counted (hy ▸ e)

theorem bind {f k : α → Run β} (hx : SameAt g x y)
    (hf : ∀ {a m}, y g = some (.ok a, m) → m.Counted → SameAt m (f a) (k a)) :
    SameAt g (x >>= f) (y >>= k) where
  same := by
    show Run.andThen x f g = Run.andThen y k g
    unfold Run.andThen
    rw [hx.same]
    split
    · rfl
    · rfl
    · next a m first => exact (hf first (hx.counted first)).same
  counted whole := by
    rcases Run.bind_eq_some_iff.1 whole with ⟨fault, rfl, first⟩ | ⟨a, m, first, rest⟩
    · exact hx.counted first
    · exact (hf first (hx.counted first)).counted rest

end SameAt

namespace CountsAlike

variable {α : Type}

/-- Nothing but the queue and the frames matters. -/
theorem piece {x : Run α} (hx : ∀ {g r h}, x g = some (r, h) → Touch g h) : CountsAlike x x where
  sameAt {g} hg :=
    { same := rfl
      counted := fun {r h} k => by
        have keeps := (hx k).effect.keeps
        refine Engine.Always.of_state hg ?_ keeps.frames
        rw [State.TicksFrom, keeps.delays]
        exact hg.queue }
  ready k ready := by
    rw [State.TicksFrom, (hx k).effect.keeps.delays]
    exact ready

/-- Changes that keep the frames and every bound that is not positive. -/
theorem update {f : Engine → Engine}
    (hf : ∀ {g least}, least ≤ 0 → g.state.TicksFrom least → (f g).state.TicksFrom least)
    (frames : ∀ g, (f g).frames = g.frames) : CountsAlike (Run.update f) (Run.update f) where
  sameAt {g} hg :=
    { same := rfl
      counted := fun k => by
        cases k
        exact Engine.Always.of_state hg (hf (by decide) hg.queue) (frames g) }
  ready k ready := by
    cases k
    exact hf (Int.le_refl 0) ready

theorem outOfFuel : CountsAlike (Run.outOfFuel : Run α) Run.outOfFuel where
  sameAt _ := ⟨rfl, fun k => by cases k⟩
  ready k := by cases k

end CountsAlike

/-- **Runs that count alike are put together to such.** -/
theorem countsAlike_congruence : Congruence CountsAlike where
  ask f :=
    { sameAt := fun hg => ⟨rfl, fun k => by cases k; exact hg⟩
      ready := fun k ready => (Prod.mk.inj (Option.some.inj k)).2 ▸ ready }
  bind hx hf :=
    { sameAt := fun hg => (hx.sameAt hg).bind fun _ hm => (hf _).sameAt hm
      ready := fun k ready => by
        obtain ⟨a, m, e, k⟩ := Run.bind_eq_ok_iff.1 k
        exact (hf a).ready k (hx.ready e ready) }
  piece hx := .piece fun k => (hx k).touch
  log c := .update (fun _ hg => hg) fun _ => rfl
  schedule callback ticks scope := by
    refine .update (fun {g least} low hg => ?_) fun _ => rfl
    intro d (hd : d ∈ (Clock.schedule callback ticks scope g).queue)
    rw [Clock.queue_schedule] at hd
    rcases List.mem_append.1 hd with hd | hd
    · exact hg d hd
    · -- What is scheduled has no ticks left at worst.
      cases List.mem_singleton.1 hd
      exact Int.le_trans low (Int.le_max_right _ _)

/-! ### Time -/

namespace Clock

variable {fire fire' : Delay → Run Unit} {tick tick' alarm : Run Unit} {scans : Nat}

/-- Firing puts back no more than it took. -/
theorem fireAll_sameAt (hf : ∀ d, CountsAlike (fire d) (fire' d)) {ds : List Delay}
    (hd : ∀ d ∈ ds, -1 ≤ d.ticks) (hg : g.Counted) :
    SameAt g (fireAll fire ds) (fireAll fire' ds) := by
  induction ds generalizing g with
  | nil => exact .result hg ()
  | cons d ds ih =>
    obtain ⟨_, others⟩ := List.forall_mem_cons.1 hd
    have first := (hf d).sameAt hg
    constructor
    · rw [fireAll_cons, fireAll_cons, first.same]
      split
      · rfl
      · next e => exact (ih others (first.counted e)).same
      · rfl
    · intro r h k
      rw [fireAll_cons] at k
      split at k
      · cases k
      · next e => exact (ih others (first.counted e)).counted k
      · next e =>
        cases k
        exact (first.counted e).requeue others

theorem drain_countsAlike (hf : ∀ d, CountsAlike (fire d) (fire' d)) (scans : Nat) :
    CountsAlike (drain fire scans) (drain fire' scans) where
  sameAt {g} hg := by
    induction scans generalizing g with
    | zero => exact CountsAlike.outOfFuel.sameAt hg
    | succ scans ih =>
      by_cases hd : due g = []
      · exact .elsewhere (drain_idle hd) (drain_idle hd) (.result hg ())
      · have taken : ∀ d ∈ due g, -1 ≤ d.ticks :=
          fun d mem => hg.queue d (State.mem_takeDue_fst.1 mem).1
        exact .elsewhere (drain_scan hd) (drain_scan hd)
          ((fireAll_sameAt hf taken hg.withoutDue).bind fun _ hm => ih hm)
  ready k _ := ticksFrom_of_due (due_of_drain k)

/-- **A clock step sets off no alarm**, where no counter is negative before it. -/
theorem step_sameAt (hf : ∀ d, CountsAlike (fire d) (fire' d)) (ht : CountsAlike tick tick')
    (hg : g.Counted) (ready : g.state.TicksFrom 0) :
    SameAt g (stepBy (guarded alarm) fire tick scans) (step fire' tick' scans) := by
  have on : (advance g.record).Counted := Engine.Always.of_state hg.record hg.queue rfl
  refine .elsewhere (h := advance g.record)
    (v := tick >>= fun _ => guarded alarm >>= fun _ => drain fire scans)
    (w := tick' >>= fun _ => Run.update age >>= fun _ => drain fire' scans) rfl rfl ?_
  refine (ht.sameAt on).bind fun {_ m} ticked hm => ?_
  have ready : m.state.TicksFrom 0 := ht.ready ticked ready
  have quiet := guarded_apply alarm ready
  exact .elsewhere (Run.bind_apply_ok quiet) rfl
    ((drain_countsAlike hf scans).sameAt (hm.age ready))

theorem steps_sameAt (hf : ∀ d, CountsAlike (fire d) (fire' d)) (ht : CountsAlike tick tick')
    (n : Nat) (hg : g.Counted) (ready : g.state.TicksFrom 0) :
    SameAt g (stepsBy (guarded alarm) fire tick scans n) (steps fire' tick' scans n) := by
  induction n generalizing g with
  | zero => exact .result hg ()
  | succ n ih =>
    refine (step_sameAt hf ht hg ready).bind fun stepped hm => ih hm ?_
    obtain ⟨_, _, drained⟩ := step_eq_ok_iff.1 stepped
    exact ticksFrom_of_due (due_of_drain drained)

/-- **Time passes without an alarm**: every step is behind a drain that ended well. -/
theorem pass_countsAlike (hf : ∀ d, CountsAlike (fire d) (fire' d))
    (ht : CountsAlike tick tick') (n : Int) :
    CountsAlike (passBy (guarded alarm) fire tick scans n) (pass fire' tick' scans n) where
  sameAt hg := ((drain_countsAlike hf scans).sameAt hg).bind fun drained hm =>
    steps_sameAt hf ht n.toNat hm (ticksFrom_of_due (due_of_drain drained))
  ready k _ := ticksFrom_of_due (due_of_pass k)

end Clock

/-! ### Games -/

variable (alarm : Run Unit)

/-- What a script can set going sets off no alarm. -/
theorem powers_countAlike (fuel : Nat) :
    (powersBy (Clock.guarded alarm) fuel).Related CountsAlike (powers fuel) := by
  have hR := countsAlike_congruence
  induction fuel with
  | zero =>
    exact
      { test := fun _ => .outOfFuel
        perform := fun _ _ _ => .outOfFuel
        pass := fun _ => .outOfFuel }
  | succ fuel ih =>
    have hrun := Interpreter.run_related hR ih
    exact
      { test := Move.test_related hR hrun
        perform := Move.perform_related hR hrun
        pass := Clock.pass_countsAlike (Delay.fire_related hR hrun)
          (Move.tickRule_related hR hrun) }

/-- **No operation sets off an alarm.** -/
theorem Operation.runBy_countsAlike (op : Operation) (fuel : Nat) :
    CountsAlike (op.runBy (Clock.guarded alarm) fuel) (op.run fuel) := by
  have hR := countsAlike_congruence
  have hrun := Interpreter.run_related hR (powers_countAlike alarm fuel)
  have hfire := Delay.fire_related hR hrun
  rw [op.run_eq_runWith]
  exact op.runWith_related hR hrun
    (Clock.pass_countsAlike hfire (Move.tickRule_related hR hrun))
    (Clock.drain_countsAlike hfire fuel) fun _ _ => .piece .insert

/-- Counters are in range, now and in every frame. -/
theorem Reachable.counted (hg : Reachable g) : g.Counted := by
  induction hg with
  | start k => exact Engine.Always.start (fun d hd => nomatch hd) k
  | operate op fuel _ k ih =>
    -- No alarm is set off, so it does not matter which one.
    exact ((op.runBy_countsAlike Run.outOfFuel fuel).sameAt ih).counted k
  | revert k _ ih => exact Engine.Always.revert ih k
  | retrieve k _ ih => exact Engine.Always.retrieve ih k
  | retrieved k _ hp ih => exact Engine.Always.retrieved ih hp

/-- **Counters stay in range, and every decrement is exact.**  No delay in the queue of a
reachable engine has fewer than `-1` ticks left.  Operations are what they are by the
decrement of the clock, which stops at the least integer.  On a reachable engine they stay
the same by an exact one that sets off an alarm where it finds a counter negative.  The
alarm may do anything, say fail with any fault, so no decrement finds one. -/
theorem Reachable.counters_in_range (hg : Reachable g) :
    (∀ d ∈ g.queue, -1 ≤ d.ticks) ∧
    ∀ (op : Operation) (fuel : Nat), op.runBy (Run.update Clock.age) fuel = op.run fuel ∧
      ∀ alarm : Run Unit, op.runBy (Clock.guarded alarm) fuel g = op.run fuel g :=
  ⟨hg.counted.queue, fun op fuel => ⟨op.runBy_age fuel,
    fun alarm => ((op.runBy_countsAlike alarm fuel).sameAt hg.counted).same⟩⟩

/-- A move that fails. -/
def mine : Entity :=
  (Entity.named "mine").append effectList
    [.script ⟨"1 / 0", .call "div" [.literal (.int 1), .literal (.int 0)] [] []⟩]

/-- A script that schedules the failing move for at once. -/
def trigger : Script := ⟨"delay 0 mine", .call "delay" [.literal (.int 0), .name "mine"] [] []⟩

/-- An engine whose tick rule schedules the failing move twice. -/
def mined : Engine :=
  { registry := { knowsFunctions := true }
    config := {}
    schema := (Schema.ofCatalog {}).toOption.getD {}
    state :=
      { entities := .ofList [("mine", mine), ("tick", (Entity.named "tick").append effectList
          [.script trigger, .script trigger])]
        dice := { seed := 0 } }
    history := .ofList [] }

theorem reachable_mined : Reachable mined := by
  have empty : Engine.start {} { knowsFunctions := true } =
      .ok { mined with state := .start 0 } := rfl
  have laid : Reachable
      { mined with state := { State.start 0 with entities := .ofList [("mine", mine)] } } :=
    (Reachable.start empty).insert (e := mine) rfl
  exact laid.insert (e := (Entity.named "tick").append effectList
    [.script trigger, .script trigger]) rfl

/-- **A counter does come to `-1`**: both delays lose a tick before they fire, and when the
first fails the second is put back.  When time goes on, no decrement finds it there. -/
theorem Reachable.counters_in_range_mined : ∃ h : Engine,
    Game.pass 1 1 mined = some (.error (.arithmetic .divisionByZero), h) ∧
    h.queue.map (·.ticks) = [-1] ∧ (∀ d ∈ h.queue, -1 ≤ d.ticks) ∧
    ∀ alarm, (Operation.pass 1).runBy (Clock.guarded alarm) 2 h = (Operation.pass 1).run 2 h := by
  refine ⟨_, rfl, rfl, ?_⟩
  have late := Reachable.operate (.pass 1) 1 reachable_mined rfl
  have range := Reachable.counters_in_range late
  exact ⟨range.1, fun alarm => (range.2 (.pass 1) 2).2 alarm⟩

end Tabletop
