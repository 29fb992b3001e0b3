/-
# Interleaved runs

Operations on two components, in any order. A run of them returns exactly when the
operations on each component, run by themselves, do, and it leaves both components
as those runs leave them: the order in which the two are interleaved does not
matter. Operations that act on both components at once come apart in the same way. A
run on an embedded state follows the run it is the image of. Operations that commute
can be run in any order.
-/

import Packet.Rust.Loop

namespace Packet.Rust

variable {σ σ' τ τ' ω ω' κ : Type}

/-- An operation on one of two components. -/
def onEither (left : ω → σ → Exec σ) (right : ω' → τ → Exec τ) : ω ⊕ ω' → σ × τ → Exec (σ × τ)
  | .inl op, (s, t) => do return (← left op s, t)
  | .inr op, (s, t) => do return (s, ← right op t)

/-- The operations of an interleaving on either component, in their order. -/
def lefts (ops : List (ω ⊕ ω')) : List ω := ops.filterMap Sum.getLeft?

/-- The operations on the second component, in their order. -/
def rights (ops : List (ω ⊕ ω')) : List ω' := ops.filterMap Sum.getRight?

section Lists

variable (op : ω) (op' : ω') (ops ops' : List (ω ⊕ ω'))

@[simp] theorem lefts_nil : lefts ([] : List (ω ⊕ ω')) = [] := rfl

@[simp] theorem rights_nil : rights ([] : List (ω ⊕ ω')) = [] := rfl

@[simp] theorem lefts_inl : lefts (.inl op :: ops) = op :: lefts ops := rfl

@[simp] theorem lefts_inr : lefts (.inr op' :: ops) = lefts ops := rfl

@[simp] theorem rights_inl : rights (.inl op :: ops) = rights ops := rfl

@[simp] theorem rights_inr : rights (.inr op' :: ops) = op' :: rights ops := rfl

end Lists

/-- An operation that may act on each of two components, as its two readings say. -/
def onBoth (left : ω → σ → Exec σ) (right : ω' → τ → Exec τ) (toLeft : κ → Option ω)
    (toRight : κ → Option ω') (op : κ) : σ × τ → Exec (σ × τ)
  | (s, t) => do return (← runOps left (toLeft op).toList s, ← runOps right (toRight op).toList t)

@[simp] theorem runOps_singleton {apply : ω → σ → Exec σ} (op : ω) (s : σ) :
    runOps apply [op] s = apply op s := bind_pure (apply op s)

theorem onBoth_eq_ok_iff {left : ω → σ → Exec σ} {right : ω' → τ → Exec τ}
    {toLeft : κ → Option ω} {toRight : κ → Option ω'} {op : κ} {s s' : σ} {t t' : τ} :
    onBoth left right toLeft toRight op (s, t) = .ok (s', t') ↔
      runOps left (toLeft op).toList s = .ok s' ∧ runOps right (toRight op).toList t = .ok t' := by
  rw [onBoth]
  cases runOps left (toLeft op).toList s <;> cases runOps right (toRight op).toList t <;> simp

theorem runOps_filterMap_cons {apply : ω → σ → Exec σ} (read : κ → Option ω) (op : κ)
    (ops : List κ) (s : σ) : runOps apply ((op :: ops).filterMap read) s =
      runOps apply (read op).toList s >>= runOps apply (ops.filterMap read) := by
  rw [List.filterMap_cons]
  cases read op with
  | none => rfl
  | some op' => exact runOps_append [op'] _ s

/-- Such a run is the run of each reading on its component. -/
theorem runOps_onBoth_iff {left : ω → σ → Exec σ} {right : ω' → τ → Exec τ}
    {toLeft : κ → Option ω} {toRight : κ → Option ω'} {ops : List κ} {s s' : σ} {t t' : τ} :
    runOps (onBoth left right toLeft toRight) ops (s, t) = .ok (s', t') ↔
      runOps left (ops.filterMap toLeft) s = .ok s' ∧
        runOps right (ops.filterMap toRight) t = .ok t' := by
  induction ops generalizing s t with
  | nil =>
    simp only [runOps, pure_eq_ok, List.filterMap_nil, Except.ok.injEq, Prod.mk.injEq]
  | cons op ops ih =>
    rw [runOps_filterMap_cons, runOps_filterMap_cons, runOps, onBoth]
    cases runOps left (toLeft op).toList s with
    | error fault => simp
    | ok next =>
      cases runOps right (toRight op).toList t with
      | error fault => simp
      | ok next' => exact ih

theorem onEither_eq_onBoth {left : ω → σ → Exec σ} {right : ω' → τ → Exec τ} :
    onEither left right = onBoth left right Sum.getLeft? Sum.getRight? := by
  funext op pair
  cases op <;> simp [onEither, onBoth, runOps]

/-- An interleaving is the two runs it is made of. -/
theorem runOps_onEither_iff {left : ω → σ → Exec σ} {right : ω' → τ → Exec τ}
    {ops : List (ω ⊕ ω')} {s s' : σ} {t t' : τ} :
    runOps (onEither left right) ops (s, t) = .ok (s', t') ↔
      runOps left (lefts ops) s = .ok s' ∧ runOps right (rights ops) t = .ok t' := by
  rw [onEither_eq_onBoth]
  exact runOps_onBoth_iff

/-- Operations that act on the image of a state as others act on the state itself run
on the image as those run on the state. The invariant is what the images need. -/
theorem runOps_image {concrete : ω → τ → Exec τ} {abstract_ : ω → σ → Exec σ} (image : σ → τ)
    (invariant : σ → Prop)
    (step : ∀ op s, invariant s → concrete op (image s) = (abstract_ op s).map image)
    (keeps : ∀ op s s', abstract_ op s = .ok s' → invariant s → invariant s')
    (ops : List ω) {s : σ} (start : invariant s) :
    runOps concrete ops (image s) = (runOps abstract_ ops s).map image := by
  induction ops generalizing s with
  | nil => rfl
  | cons op ops ih =>
    rw [runOps, runOps, step op s start]
    cases applied : abstract_ op s with
    | error fault => rfl
    | ok next => exact ih (keeps op s next applied start)

/-- Operations that act on the images of two components as others act on the components
act on the image of the pair as those act on the pair. -/
theorem onEither_image {left : ω → σ → Exec σ} {left' : ω → σ' → Exec σ'}
    {right : ω' → τ → Exec τ} {right' : ω' → τ' → Exec τ'} {image : σ' → σ} {image' : τ' → τ}
    {s : σ'} {t : τ'} (onLeft : ∀ op, left op (image s) = (left' op s).map image)
    (onRight : ∀ op, right op (image' t) = (right' op t).map image') (op : ω ⊕ ω') :
    onEither left right op (Prod.map image image' (s, t)) =
      (onEither left' right' op (s, t)).map (Prod.map image image') := by
  cases op with
  | inl op =>
    rw [Prod.map, onEither, onLeft, onEither]
    cases left' op s <;> rfl
  | inr op =>
    rw [Prod.map, onEither, onRight, onEither]
    cases right' op t <;> rfl

/-- What the operations on each component keep of it, those on either keep of both. -/
theorem onEither_keeps {left : ω → σ → Exec σ} {right : ω' → τ → Exec τ} {holds : σ → Prop}
    {holds' : τ → Prop} (keeps : ∀ op s s', left op s = .ok s' → holds s → holds s')
    (keeps' : ∀ op t t', right op t = .ok t' → holds' t → holds' t') (op : ω ⊕ ω')
    (pair pair' : σ × τ) (applied : onEither left right op pair = .ok pair')
    (both : holds pair.1 ∧ holds' pair.2) : holds pair'.1 ∧ holds' pair'.2 := by
  cases op with
  | inl op =>
    obtain ⟨s', written, same⟩ := bind_eq_ok.mp applied
    obtain rfl := Except.ok.inj same
    exact ⟨keeps op _ _ written both.1, both.2⟩
  | inr op =>
    obtain ⟨t', written, same⟩ := bind_eq_ok.mp applied
    obtain rfl := Except.ok.inj same
    exact ⟨both.1, keeps' op _ _ written both.2⟩

/-- Runs on one component. -/
theorem runOps_onEither_inl {left : ω → σ → Exec σ} {right : ω' → τ → Exec τ} (ops : List ω)
    (s : σ) (t : τ) :
    runOps (onEither left right) (ops.map .inl) (s, t) = (runOps left ops s).map (·, t) := by
  induction ops generalizing s with
  | nil => rfl
  | cons op ops ih =>
    rw [List.map_cons, runOps, runOps, onEither]
    cases left op s with
    | error fault => rfl
    | ok next => exact ih next

theorem runOps_onEither_inr {left : ω → σ → Exec σ} {right : ω' → τ → Exec τ} (ops : List ω')
    (s : σ) (t : τ) :
    runOps (onEither left right) (ops.map .inr) (s, t) = (runOps right ops t).map (s, ·) := by
  induction ops generalizing t with
  | nil => rfl
  | cons op ops ih =>
    rw [List.map_cons, runOps, runOps, onEither]
    cases right op t with
    | error fault => rfl
    | ok next => exact ih next

/-- Operations on different components commute wherever both return, or one faults. -/
theorem runOps_onEither_comm {left : ω → σ → Exec σ} {right : ω' → τ → Exec τ} (op : ω) (op' : ω')
    {pair : σ × τ} (returns : ∃ s', left op pair.1 = .ok s') :
    runOps (onEither left right) [.inl op, .inr op'] pair =
      runOps (onEither left right) [.inr op', .inl op] pair := by
  obtain ⟨s', written⟩ := returns
  rw [runOps_pair, runOps_pair, onEither, onEither, written]
  cases applied : right op' pair.2 with
  | error fault => simp [onEither, applied]
  | ok t' => simp [onEither, applied, written]

/-- Two operations run in either order to the same end. -/
theorem runOps_swap {apply : ω → σ → Exec σ} {first second : ω} {s : σ} (ops : List ω)
    (same : runOps apply [first, second] s = runOps apply [second, first] s) :
    runOps apply (first :: second :: ops) s = runOps apply (second :: first :: ops) s := by
  have append (before : List ω) :
      runOps apply (before ++ ops) s = runOps apply before s >>= runOps apply ops :=
    runOps_append before ops s
  exact (append [first, second]).trans (same ▸ (append [second, first]).symm)

/-- A run of operations that pairwise commute may be reordered. The invariant is what
they need in order to commute. -/
theorem runOps_perm {apply : ω → σ → Exec σ} {independent : ω → ω → Prop} (invariant : σ → Prop)
    (keeps : ∀ op s s', apply op s = .ok s' → invariant s → invariant s')
    (symmetric : ∀ first second, independent first second → independent second first)
    (commute : ∀ first second s, independent first second → invariant s →
      runOps apply [first, second] s = runOps apply [second, first] s)
    {ops ops' : List ω} (reordered : ops.Perm ops') (apart : ops.Pairwise independent) {s : σ}
    (start : invariant s) : runOps apply ops s = runOps apply ops' s := by
  induction reordered generalizing s with
  | nil => rfl
  | cons op _ ih =>
    rw [runOps, runOps]
    cases applied : apply op s with
    | error fault => rfl
    | ok next => exact ih apart.of_cons (keeps op s next applied start)
  | swap first second ops =>
    have different : independent second first := List.rel_of_pairwise_cons apart List.mem_cons_self
    exact runOps_swap ops (commute second first s different start)
  | trans reordered _ ih ih' =>
    exact (ih apart start).trans
      (ih' ((reordered.pairwise_iff fun {_ _} => symmetric _ _).mp apart) start)

end Packet.Rust
