/-
# Readers and the iterators and loops that follow them

A reader looks at its position and finds the end of what it reads, an error, or
an item together with the position after it. Everything a walk can do is in
that one function: a lazy iterator and a hand-written loop that both follow the
same reader agree on every input.

`Passes` is a finite walk over items, `Reads` a walk to its end. When every item
uses up some of a measure the walk ends, after boundedly many items.
-/

import Packet.Rust.Loop
import Mathlib.Order.Basic

namespace Packet.Rust

/-- What a reader finds at its position. -/
inductive Reading (σ ι ε : Type)
  | stop
  | fail (error : ε)
  | item (item : ι) (rest : σ)

variable {σ τ ι ε β : Type}

/-- The reader passes these items on the way from one position to another. -/
inductive Passes (read : σ → Reading σ ι ε) : σ → List ι → σ → Prop
  | nil (s : σ) : Passes read s [] s
  | cons {s u t : σ} {item : ι} {items : List ι} :
      read s = .item item u → Passes read u items t → Passes read s (item :: items) t

/-- The reader ends at a position, normally or with an error. -/
def Ends (read : σ → Reading σ ι ε) (s : σ) : Option ε → Prop
  | none => read s = .stop
  | some error => read s = .fail error

/-- A complete walk: the items passed, the position it ends at, and how it ends. -/
structure Reads (read : σ → Reading σ ι ε) (s : σ) (items : List ι) (t : σ)
    (result : Option ε) : Prop where
  passes : Passes read s items t
  ends : Ends read t result

section Walks

variable {read : σ → Reading σ ι ε}

/-- Concatenate walks. -/
theorem Passes.append {s u t : σ} {first second : List ι} (h₁ : Passes read s first u)
    (h₂ : Passes read u second t) : Passes read s (first ++ second) t := by
  induction h₁ with
  | nil _ => exact h₂
  | cons found _ ih => exact .cons found (ih h₂)

/-- Split a walk over list concatenation. -/
theorem Passes.split {first second : List ι} {s t : σ}
    (h : Passes read s (first ++ second) t) :
    ∃ u, Passes read s first u ∧ Passes read u second t := by
  induction first generalizing s with
  | nil => exact ⟨s, .nil s, h⟩
  | cons item first ih =>
    cases h with
    | cons found rest =>
      obtain ⟨u, left, right⟩ := ih rest
      exact ⟨u, .cons found left, right⟩

theorem Reads.of_stop {s : σ} (h : read s = .stop) : Reads read s [] s none := ⟨.nil s, h⟩

theorem Reads.of_fail {s : σ} {error : ε} (h : read s = .fail error) :
    Reads read s [] s (some error) := ⟨.nil s, h⟩

theorem Reads.of_item {s u t : σ} {item : ι} {items : List ι} {result : Option ε}
    (h : read s = .item item u) (rest : Reads read u items t result) :
    Reads read s (item :: items) t result := ⟨.cons h rest.passes, rest.ends⟩

/-- A complete walk goes on from wherever a partial walk has come to. -/
theorem Reads.after {s u t : σ} {first second : List ι} {result : Option ε}
    (h₁ : Passes read s first u) (h₂ : Reads read u second t result) :
    Reads read s (first ++ second) t result := ⟨h₁.append h₂.passes, h₂.ends⟩

/-- The walk from a position is determined by the position. -/
theorem Reads.unique {s t t' : σ} {items items' : List ι} {result result' : Option ε}
    (h : Reads read s items t result) (h' : Reads read s items' t' result') :
    items = items' ∧ t = t' ∧ result = result' := by
  obtain ⟨passes, ends⟩ := h
  obtain ⟨passes', ends'⟩ := h'
  -- Both walks read the same first thing: the same item, or the same end.
  induction passes generalizing items' with
  | nil s =>
    cases passes' with
    | nil _ =>
      cases result <;> cases result' <;> simp_all [Ends]
    | cons found' _ => cases result <;> simp_all [Ends]
  | cons found _ ih =>
    cases passes' with
    | nil _ => cases result' <;> simp_all [Ends]
    | cons found' rest' =>
      rw [found] at found'
      cases found'
      obtain ⟨rfl, rfl, rfl⟩ := ih ends rest'
      exact ⟨rfl, rfl, rfl⟩

/-- Every walk ends when each item uses up some of a measure. -/
theorem exists_reads (measure : σ → ℕ)
    (consumes : ∀ s item u, read s = .item item u → measure u < measure s) (s : σ) :
    ∃ items t result, Reads read s items t result := by
  -- The walk goes on from a position of smaller measure, or ends here.
  induction hm : measure s using Nat.strongRecOn generalizing s with
  | ind m ih =>
    cases found : read s with
    | stop => exact ⟨[], s, none, .of_stop found⟩
    | fail error => exact ⟨[], s, some error, .of_fail found⟩
    | item item u =>
      obtain ⟨items, t, result, rest⟩ := ih _ (hm ▸ consumes s item u found) u rfl
      exact ⟨item :: items, t, result, .of_item found rest⟩

/-- Items that use up at least `cost` of a measure each are few. -/
theorem Passes.length_mul_le (measure : σ → ℕ) (cost : ℕ)
    (consumes : ∀ s item u, read s = .item item u → measure u + cost ≤ measure s)
    {s t : σ} {items : List ι} (h : Passes read s items t) :
    items.length * cost + measure t ≤ measure s := by
  induction h with
  | nil _ => simp
  | @cons s u t item items found _ ih =>
    have used := consumes s item u found
    rw [List.length_cons, Nat.add_one_mul]
    omega

/-- A change of position that the reader does not notice, short of its end,
carries a walk along with it. -/
theorem Passes.transport {move : σ → σ}
    (unnoticed : ∀ s item u, read s = .item item u → read (move s) = .item item (move u))
    {s t : σ} {items : List ι} (h : Passes read s items t) :
    Passes read (move s) items (move t) := by
  induction h with
  | nil s => exact .nil (move s)
  | cons found _ ih => exact .cons (unnoticed _ _ _ found) ih

end Walks

/-! ## Following a reader -/

/-- An iterator follows a reader: from the state `live s` it yields what the
reader finds at `s`, and after an error it is exhausted. -/
structure IteratorFollows (next : τ → Exec (Option (Except ε ι) × τ))
    (read : σ → Reading σ ι ε) (live errored : σ → τ) : Prop where
  stop : ∀ s, read s = .stop → next (live s) = .ok (none, live s)
  fail : ∀ s error, read s = .fail error →
    next (live s) = .ok (some (.error error), errored s)
  item : ∀ s item u, read s = .item item u → next (live s) = .ok (some (.ok item), live u)
  exhausted : ∀ s, next (errored s) = .ok (none, errored s)

/-- An error the iterator yields is the reader's. -/
theorem IteratorFollows.fail_of_error {next : τ → Exec (Option (Except ε ι) × τ)}
    {read : σ → Reading σ ι ε} {live errored : σ → τ}
    (follows : IteratorFollows next read live errored) {s : σ} {error : ε} {it : τ}
    (yields : next (live s) = .ok (some (.error error), it)) : read s = .fail error := by
  cases found : read s with
  | stop =>
    rw [follows.stop s found] at yields
    cases yields
  | fail error' =>
    rw [follows.fail s error' found] at yields
    cases yields
    rfl
  | item item u =>
    rw [follows.item s item u found] at yields
    cases yields

/-- What draining an iterator that follows a reader yields for a walk. -/
def yielded (items : List ι) (result : Option ε) : List (Except ε ι) :=
  items.map .ok ++ (result.map .error).toList

@[simp] theorem error_mem_yielded {items : List ι} {result : Option ε} {error : ε} :
    .error error ∈ yielded items result ↔ result = some error := by
  cases result <;> simp [yielded, eq_comm]

theorem yielded_length_le (items : List ι) (result : Option ε) :
    (yielded items result).length ≤ items.length + 1 := by
  cases result <;> simp [yielded]

/-- Equal yields come from equal walks. -/
theorem yielded_inj {items items' : List ι} {result result' : Option ε}
    (same : yielded items result = yielded items' result') :
    items = items' ∧ result = result' := by
  -- An error is the only thing that is not an `Ok` item, so it shows on both sides.
  have results : result = result' := by
    cases result with
    | none =>
      cases result' with
      | none => rfl
      | some error =>
        have mem : .error error ∈ yielded items none := same ▸ error_mem_yielded.mpr rfl
        exact error_mem_yielded.mp mem
    | some error =>
      have mem : .error error ∈ yielded items' result' := same ▸ error_mem_yielded.mpr rfl
      exact (error_mem_yielded.mp mem).symm
  subst results
  have front := List.append_cancel_right same
  exact ⟨(List.map_inj_right fun _ _ h => Except.ok.inj h).mp front, rfl⟩

/-- The `Ok` items among those yielded. -/
def okItems (items : List (Except ε ι)) : List ι := items.filterMap Except.toOption

@[simp] theorem okItems_map_ok (items : List ι) :
    okItems (items.map (Except.ok : ι → Except ε ι)) = items := by
  rw [okItems, List.filterMap_map]
  exact List.filterMap_some

@[simp] theorem okItems_yielded (items : List ι) (result : Option ε) :
    okItems (yielded items result) = items := by
  have front := okItems_map_ok (ε := ε) items
  rw [okItems] at front
  rw [okItems, yielded, List.filterMap_append, front]
  cases result with
  | none => exact List.append_nil items
  | some error => exact List.append_nil items

/-- An item among those yielded splits the walk there. -/
theorem split_of_yielded {items : List ι} {result : Option ε} {before after : List (Except ε ι)}
    {item : ι} (same : yielded items result = before ++ .ok item :: after) :
    ∃ first second, items = first ++ item :: second ∧ before = first.map .ok ∧
      after = yielded second result := by
  induction before generalizing items with
  | nil =>
    cases items with
    | nil => cases result <;> simp [yielded] at same
    | cons head tail =>
      obtain ⟨heads, rest⟩ := List.cons.inj same
      obtain rfl := Except.ok.inj heads
      exact ⟨[], tail, rfl, rfl, rest.symm⟩
  | cons head before ih =>
    cases items with
    | nil =>
      have length := congrArg List.length same
      cases result <;> simp [yielded] at length
    | cons item' tail =>
      obtain ⟨heads, rest⟩ := List.cons.inj same
      obtain rfl : .ok item' = head := heads
      obtain ⟨first, second, rfl, rfl, after⟩ := ih rest
      exact ⟨item' :: first, second, rfl, rfl, after⟩

/-- Items at the front of those yielded are the first of the walk. -/
theorem split_of_yielded_map {items : List ι} {result : Option ε} {before : List ι}
    {after : List (Except ε ι)} (same : yielded items result = before.map .ok ++ after) :
    ∃ second, items = before ++ second ∧ after = yielded second result := by
  induction before generalizing items with
  | nil => exact ⟨items, rfl, same.symm⟩
  | cons head before ih =>
    obtain ⟨first, second, rfl, none, rest⟩ := split_of_yielded
      (show yielded items result = [] ++ .ok head :: (before.map .ok ++ after) from same)
    obtain rfl : first = [] := List.map_eq_nil_iff.mp none.symm
    obtain ⟨second', rfl, rest'⟩ := ih rest.symm
    exact ⟨second', rfl, rest'⟩

theorem yielded_eq_nil_iff {items : List ι} {result : Option ε} :
    yielded items result = [] ↔ items = [] ∧ result = none := by
  cases result <;> simp [yielded]

/-- Draining an iterator that follows a reader yields the reader's walk. -/
theorem IteratorFollows.drain_eq {next : τ → Exec (Option (Except ε ι) × τ)}
    {read : σ → Reading σ ι ε} {live errored : σ → τ}
    (follows : IteratorFollows next read live errored) {s t : σ} {items : List ι}
    {result : Option ε} (walk : Reads read s items t result) {fuel : ℕ}
    (enough : (yielded items result).length + 1 ≤ fuel) :
    drain next fuel (live s) =
      .ok (yielded items result, if result.isSome then errored t else live t) := by
  obtain ⟨passes, ends⟩ := walk
  induction passes generalizing fuel with
  | nil s =>
    cases result with
    | none =>
      obtain ⟨fuel, rfl⟩ : ∃ n, fuel = n + 1 := ⟨fuel - 1, by omega⟩
      exact drain_none (follows.stop s ends) fuel
    | some error =>
      -- One call for the error, one more to see that the iterator is exhausted.
      obtain ⟨fuel, rfl⟩ : ∃ n, fuel = n + 1 + 1 :=
        ⟨fuel - 2, by simp [yielded] at enough; omega⟩
      exact drain_some (follows.fail s error ends) (drain_none (follows.exhausted s) fuel)
  | cons found _ ih =>
    obtain ⟨fuel, rfl⟩ : ∃ n, fuel = n + 1 := ⟨fuel - 1, by omega⟩
    -- One call for the item; the rest of the walk fits the rest of the budget.
    refine drain_some (follows.item _ _ _ found) (ih ?_ ends)
    simp only [yielded, List.map_cons, List.cons_append, List.length_cons] at enough ⊢
    omega

/-! ### Any number of calls -/

/-- What calls of an iterator that follows a reader have returned from a position on,
and the state they leave it in: on the way, or silent since the end of the walk. -/
inductive Called (read : σ → Reading σ ι ε) (live errored : σ → τ) (s : σ) :
    List (Option (Except ε ι)) → τ → Prop
  | running {u : σ} {items : List ι} : Passes read s items u →
      Called read live errored s ((yielded items none).map some) (live u)
  | ended {t : σ} {items : List ι} {result : Option ε} (silent : ℕ) :
      Reads read s items t result →
      Called read live errored s ((yielded items result).map some ++ List.replicate silent none)
        (if result.isSome then errored t else live t)

section Calls

variable {next : τ → Exec (Option (Except ε ι) × τ)} {read : σ → Reading σ ι ε}
  {live errored : σ → τ} {s : σ} {outcomes : List (Option (Except ε ι))} {it : τ}

/-- At the end of a walk an iterator yields nothing and stays as it is. -/
theorem IteratorFollows.silent (follows : IteratorFollows next read live errored) {t : σ}
    {items : List ι} {result : Option ε} (walk : Reads read s items t result) :
    next (if result.isSome then errored t else live t) =
      .ok (none, if result.isSome then errored t else live t) := by
  cases result with
  | none => exact follows.stop t walk.ends
  | some error => exact follows.exhausted t

/-- One more call from wherever the calls have come to. -/
theorem IteratorFollows.next_of_called (follows : IteratorFollows next read live errored)
    (called : Called read live errored s outcomes it) :
    ∃ outcome after, next it = .ok (outcome, after) ∧
      Called read live errored s (outcomes ++ [outcome]) after := by
  cases called with
  | @running u items passes =>
    -- The call reads one more item, or the end of the walk.
    cases found : read u with
    | stop => exact ⟨none, live u, follows.stop u found, .ended 1 ⟨passes, found⟩⟩
    | fail error =>
      have walk : Reads read s items u (some error) := ⟨passes, found⟩
      have failed : Called read live errored s ((yielded items (some error)).map some ++ [])
        (errored u) := .ended 0 walk
      refine ⟨some (.error error), errored u, follows.fail u error found, ?_⟩
      simpa [yielded] using failed
    | item item v =>
      have passed : Called read live errored s _ (live v) :=
        .running (passes.append (.cons found (.nil v)))
      refine ⟨some (.ok item), live v, follows.item u item v found, ?_⟩
      simpa [yielded] using passed
  | @ended t items result silent walk =>
    have again : Called read live errored s _ _ := .ended (silent + 1) walk
    rw [List.replicate_succ', ← List.append_assoc] at again
    exact ⟨none, _, follows.silent walk, again⟩

/-- Calls that have not come to silence have returned `Ok` items only. -/
theorem IteratorFollows.silent_or_running (follows : IteratorFollows next read live errored)
    (called : Called read live errored s outcomes it) :
    next it = .ok (none, it) ∨ ∃ u items, Passes read s items u ∧
      outcomes = (yielded items none).map some ∧ it = live u := by
  cases called with
  | @running u items passes => exact .inr ⟨u, items, passes, rfl, rfl⟩
  | ended silent walk => exact .inl (follows.silent walk)

/-- Any number of calls return, along the walk and then in silence. -/
theorem IteratorFollows.exists_calls (follows : IteratorFollows next read live errored) (s : σ)
    (n : ℕ) : ∃ outcomes it, calls next n (live s) = .ok (outcomes, it) ∧
      Called read live errored s outcomes it := by
  induction n with
  | zero => exact ⟨[], live s, rfl, .running (.nil s)⟩
  | succ n ih =>
    obtain ⟨outcomes, it, ran, called⟩ := ih
    obtain ⟨outcome, after, step, kept⟩ := follows.next_of_called called
    exact ⟨outcomes ++ [outcome], after, calls_succ ran step, kept⟩

end Calls

/-- A loop follows a reader: one turn passes one item, and the two ends of the
walk decide the loop's value. -/
structure LoopFollows (turn : τ → Exec (Turn τ β)) (read : σ → Reading σ ι ε)
    (live : σ → τ) (onStop : σ → β) (onFail : σ → ε → β) : Prop where
  stop : ∀ s, read s = .stop → turn (live s) = .ok (.leave (onStop s))
  fail : ∀ s error, read s = .fail error → turn (live s) = .ok (.leave (onFail s error))
  item : ∀ s item u, read s = .item item u → turn (live s) = .ok (.proceed (live u))

/-- A loop that follows a reader ends as the reader's walk does, after one turn
more than the walk has items. -/
theorem LoopFollows.loop_eq {turn : τ → Exec (Turn τ β)} {read : σ → Reading σ ι ε}
    {live : σ → τ} {onStop : σ → β} {onFail : σ → ε → β}
    (follows : LoopFollows turn read live onStop onFail) {s t : σ} {items : List ι}
    {result : Option ε} (walk : Reads read s items t result) {fuel : ℕ}
    (enough : items.length + 1 ≤ fuel) :
    loop turn fuel (live s) = .ok (result.elim (onStop t) (onFail t)) := by
  obtain ⟨passes, ends⟩ := walk
  induction passes generalizing fuel with
  | nil s =>
    obtain ⟨fuel, rfl⟩ : ∃ n, fuel = n + 1 := ⟨fuel - 1, by omega⟩
    cases result with
    | none => exact loop_leave (follows.stop s ends) fuel
    | some error => exact loop_leave (follows.fail s error ends) fuel
  | cons found _ ih =>
    obtain ⟨fuel, rfl⟩ : ∃ n, fuel = n + 1 := ⟨fuel - 1, by omega⟩
    rw [loop_proceed (follows.item _ _ _ found)]
    exact ih (by simpa using enough) ends

end Packet.Rust
