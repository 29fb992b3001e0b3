/-
# Loops, iterators and runs of operations

A `loop` and a `for` over an iterator are given a budget of turns. Running out
of it is the fault `fuel`, which no program produces: a statement that a loop
returns is therefore also a statement that it ends.
-/

import Packet.Rust.Exec

namespace Packet.Rust

variable {σ ι β ω : Type}

/-! ## `loop` -/

/-- What one turn of a loop does: go on from a new state, or leave with a value. -/
inductive Turn (σ β : Type)
  | proceed (state : σ)
  | leave (value : β)

/-- `loop { .. }` with at most `fuel` turns. -/
def loop (turn : σ → Exec (Turn σ β)) : ℕ → σ → Exec β
  | 0, _ => .error .fuel
  | fuel + 1, state => do
    match ← turn state with
    | .proceed next => loop turn fuel next
    | .leave value => return value

theorem loop_proceed {turn : σ → Exec (Turn σ β)} {state next : σ}
    (h : turn state = .ok (.proceed next)) (fuel : ℕ) :
    loop turn (fuel + 1) state = loop turn fuel next := by
  rw [loop, h, ok_bind]

theorem loop_leave {turn : σ → Exec (Turn σ β)} {state : σ} {value : β}
    (h : turn state = .ok (.leave value)) (fuel : ℕ) :
    loop turn (fuel + 1) state = .ok value := by
  rw [loop, h, ok_bind]
  rfl

/-- A loop whose turns keep an invariant and use up a measure returns, with a value
that leaving from the invariant makes good. -/
theorem loop_rule {turn : σ → Exec (Turn σ β)} (invariant : σ → Prop) (measure : σ → ℕ)
    (good : β → Prop)
    (step : ∀ s, invariant s → (∃ value, turn s = .ok (.leave value) ∧ good value) ∨
      ∃ next, turn s = .ok (.proceed next) ∧ invariant next ∧ measure next < measure s)
    {fuel : ℕ} {s : σ} (start : invariant s) (enough : measure s < fuel) :
    ∃ value, loop turn fuel s = .ok value ∧ good value := by
  -- The budget exceeds the measure, and each turn takes at least one from both.
  induction fuel generalizing s with
  | zero => exact absurd enough (Nat.not_lt_zero _)
  | succ fuel ih =>
    rcases step s start with ⟨value, left, holds⟩ | ⟨next, went, kept, less⟩
    · exact ⟨value, loop_leave left fuel, holds⟩
    · rw [loop_proceed went]
      exact ih kept (by omega)

/-! ## Iterators -/

/-- Call `next` until it yields nothing, with at most `fuel` calls. The yielded
items come with the state the iterator is left in. -/
def drain (next : σ → Exec (Option ι × σ)) : ℕ → σ → Exec (List ι × σ)
  | 0, _ => .error .fuel
  | fuel + 1, state => do
    match ← next state with
    | (none, last) => return ([], last)
    | (some item, rest) => do
      let (items, last) ← drain next fuel rest
      return (item :: items, last)

theorem drain_none {next : σ → Exec (Option ι × σ)} {state last : σ}
    (h : next state = .ok (none, last)) (fuel : ℕ) :
    drain next (fuel + 1) state = .ok ([], last) := by
  rw [drain, h, ok_bind]
  rfl

theorem drain_some {next : σ → Exec (Option ι × σ)} {state rest last : σ} {item : ι}
    {items : List ι} {fuel : ℕ} (h : next state = .ok (some item, rest))
    (tail : drain next fuel rest = .ok (items, last)) :
    drain next (fuel + 1) state = .ok (item :: items, last) := by
  rw [drain, h, ok_bind]
  dsimp only
  rw [tail, ok_bind]
  rfl

/-- What `n` calls of `next` return, and the state after them. Unlike a drain the
calls go on after the iterator has yielded nothing. -/
def calls (next : σ → Exec (Option ι × σ)) : ℕ → σ → Exec (List (Option ι) × σ)
  | 0, state => return ([], state)
  | n + 1, state => do
    let (outcomes, mid) ← calls next n state
    let (outcome, last) ← next mid
    return (outcomes ++ [outcome], last)

/-- One more call. -/
theorem calls_succ {next : σ → Exec (Option ι × σ)} {n : ℕ} {state mid last : σ}
    {outcomes : List (Option ι)} {outcome : Option ι}
    (ran : calls next n state = .ok (outcomes, mid)) (called : next mid = .ok (outcome, last)) :
    calls next (n + 1) state = .ok (outcomes ++ [outcome], last) := by
  rw [calls, ran, ok_bind]
  dsimp only
  rw [called, ok_bind]
  rfl

/-- An iterator that yields nothing and stays as it is yields nothing for ever. -/
theorem calls_silent {next : σ → Exec (Option ι × σ)} {state : σ}
    (silent : next state = .ok (none, state)) (n : ℕ) :
    calls next n state = .ok (List.replicate n none, state) := by
  induction n with
  | zero => rfl
  | succ n ih =>
    rw [List.replicate_succ']
    exact calls_succ ih silent

/-- `for item in iterator { if let Some(value) = body(item) { return value } }`. -/
def firstReturn (next : σ → Exec (Option ι × σ)) (body : ι → Option β) :
    ℕ → σ → Exec (Option β)
  | 0, _ => .error .fuel
  | fuel + 1, state => do
    match ← next state with
    | (none, _) => return none
    | (some item, rest) =>
      match body item with
      | some value => return some value
      | none => firstReturn next body fuel rest

/-- A `for` loop with an early return searches the items a full drain yields. -/
theorem firstReturn_of_drain {next : σ → Exec (Option ι × σ)} (body : ι → Option β)
    {fuel : ℕ} {state last : σ} {items : List ι}
    (drained : drain next fuel state = .ok (items, last)) :
    firstReturn next body fuel state = .ok (items.findSome? body) := by
  -- The drain and the loop make the same calls until the body returns.
  induction fuel generalizing state items with
  | zero => simp [drain] at drained
  | succ fuel ih =>
    obtain ⟨⟨yielded, rest⟩, called, continued⟩ := bind_eq_ok.mp drained
    rw [firstReturn, called, ok_bind]
    cases yielded with
    | none =>
      simp only [pure_eq_ok, Except.ok.injEq, Prod.mk.injEq] at continued
      rw [← continued.1, List.findSome?_nil]
      rfl
    | some item =>
      obtain ⟨⟨tail, last'⟩, drainedTail, same⟩ := bind_eq_ok.mp continued
      simp only [pure_eq_ok, Except.ok.injEq, Prod.mk.injEq] at same
      obtain ⟨rfl, rfl⟩ := same
      cases found : body item with
      | some value => simp [found]
      | none => simpa [found] using ih drainedTail

/-! ## Runs of operations -/

/-- Apply the operations in order, stopping at the first fault. -/
def runOps (apply : ω → σ → Exec σ) : List ω → σ → Exec σ
  | [], state => return state
  | op :: ops, state => do
    let next ← apply op state
    runOps apply ops next

theorem runOps_append {apply : ω → σ → Exec σ} (first second : List ω) (s : σ) :
    runOps apply (first ++ second) s = runOps apply first s >>= runOps apply second := by
  induction first generalizing s with
  | nil => rfl
  | cons op first ih =>
    rw [List.cons_append, runOps, runOps]
    cases apply op s with
    | error fault => rfl
    | ok next => exact ih next

theorem runOps_pair {apply : ω → σ → Exec σ} (first second : ω) (s : σ) :
    runOps apply [first, second] s = apply first s >>= apply second := by
  rw [runOps]
  cases apply first s with
  | error fault => rfl
  | ok next =>
    rw [ok_bind, ok_bind, runOps]
    cases apply second next <;> rfl

/-- A run that returns passes through the end of each of its prefixes. -/
theorem runOps_split {apply : ω → σ → Exec σ} {first second : List ω} {s s' : σ}
    (run : runOps apply (first ++ second) s = .ok s') :
    ∃ mid, runOps apply first s = .ok mid ∧ runOps apply second mid = .ok s' := by
  rw [runOps_append] at run
  exact bind_eq_ok.mp run

/-- Every operation of a run that returns has returned. -/
theorem runOps_applied {apply : ω → σ → Exec σ} {ops : List ω} {s s' : σ}
    (run : runOps apply ops s = .ok s') {op : ω} (mem : op ∈ ops) :
    ∃ mid next, apply op mid = .ok next := by
  obtain ⟨before, after, rfl⟩ := List.append_of_mem mem
  obtain ⟨mid, _, rest⟩ := runOps_split run
  obtain ⟨next, applied, _⟩ := bind_eq_ok.mp rest
  exact ⟨mid, next, applied⟩

/-- What every operation preserves, every run preserves. -/
theorem runOps_preserves {apply : ω → σ → Exec σ} (invariant : σ → Prop)
    (step : ∀ op s s', apply op s = .ok s' → invariant s → invariant s')
    (ops : List ω) {s s' : σ} (run : runOps apply ops s = .ok s') (start : invariant s) :
    invariant s' := by
  induction ops generalizing s with
  | nil =>
    obtain rfl := Except.ok.inj run
    exact start
  | cons op ops ih =>
    obtain ⟨next, applied, rest⟩ := bind_eq_ok.mp run
    exact ih rest (step op s next applied start)

/-- A run returns when every operation does in the states its invariant admits. -/
theorem runOps_returns {apply : ω → σ → Exec σ} (invariant : σ → Prop)
    (step : ∀ op s, invariant s → ∃ s', apply op s = .ok s' ∧ invariant s')
    (ops : List ω) {s : σ} (start : invariant s) :
    ∃ s', runOps apply ops s = .ok s' ∧ invariant s' := by
  induction ops generalizing s with
  | nil => exact ⟨s, rfl, start⟩
  | cons op ops ih =>
    obtain ⟨next, applied, held⟩ := step op s start
    obtain ⟨s', run, kept⟩ := ih held
    exact ⟨s', by rw [runOps, applied, ok_bind, run], kept⟩

/-- A part of the state that some operations set and the others leave alone holds,
after a run, what the last of the setting operations has set. -/
theorem runOps_last {α β : Type} {apply : ω → σ → Exec σ} {sets : ω → Option α} {see : σ → β}
    {value : α → β}
    (step : ∀ op s s', apply op s = .ok s' → see s' = (sets op).elim (see s) value)
    (ops : List ω) {s s' : σ} (run : runOps apply ops s = .ok s') :
    see s' = ((ops.filterMap sets).getLast?).elim (see s) value := by
  induction ops generalizing s with
  | nil =>
    obtain rfl := Except.ok.inj run
    rfl
  | cons op ops ih =>
    obtain ⟨next, applied, rest⟩ := bind_eq_ok.mp run
    have now := step op s next applied
    rw [ih rest]
    cases set : sets op with
    | none =>
      rw [List.filterMap_cons_none set, now, set]
      rfl
    | some a =>
      -- The value set now counts only if nothing is set later.
      rw [List.filterMap_cons_some set, List.getLast?_cons, now, set]
      cases (ops.filterMap sets).getLast? <;> rfl

/-- When a run is as good as the last value it has set, a run is good at every state
it passes through exactly when all the values it sets are. -/
theorem runOps_every_iff {α : Type} {apply : ω → σ → Exec σ} {sets : ω → Option α}
    {good : α → Prop} {holds : List ω → σ → Prop} {ops : List ω} {s s' : σ}
    (run : runOps apply ops s = .ok s')
    (decided : ∀ before mid, before <+: ops → runOps apply before s = .ok mid →
      (holds before mid ↔ ∀ a, (before.filterMap sets).getLast? = some a → good a)) :
    (∀ before mid, before <+: ops → runOps apply before s = .ok mid → holds before mid) ↔
      ∀ a ∈ ops.filterMap sets, good a := by
  constructor
  · -- Stop the run right after the operation that sets the value.
    intro every a mem
    obtain ⟨op, member, set⟩ := List.mem_filterMap.mp mem
    obtain ⟨before, after, rfl⟩ := List.append_of_mem member
    rw [List.append_cons] at run every decided
    obtain ⟨mid, reached, _⟩ := runOps_split run
    have stops := List.prefix_append (before ++ [op]) after
    refine (decided _ mid stops reached).mp (every _ mid stops reached) a ?_
    rw [List.filterMap_append, List.filterMap_cons_some set, List.filterMap_nil,
      List.getLast?_concat]
  · intro all before mid starts reached
    refine (decided before mid starts reached).mpr ?_
    intro a last
    exact all a ((starts.filterMap sets).subset (List.mem_of_getLast? last))

end Packet.Rust
