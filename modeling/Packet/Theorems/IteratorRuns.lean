/-
# Runs of the header iterators

Calls of either iterator return `Ok` items, then at most one error, then nothing for
ever. The flags that end a run are set on different branches of the two sources, so
the runs are taken from the readers the iterators follow: calls that have not come
to silence stand at a position of the walk, and there the next call reads what the
reader reads.
-/

import Packet.Model.ExtHeaders
import Packet.Theorems.OptionGrammar

namespace Packet

open Rust

variable {σ τ ι : Type}

/-! ## What a call and a run may do -/

/-- What one call does to the bytes left: an `Ok` item is read from the bytes that encode
it, and nothing else is consumed. An error names what is left and what it is short of. -/
structure CallEffect (remaining : τ → Bytes) (encodes : τ → ι → Bytes → Prop) (least : ℕ)
    (before : τ) (outcome : Option (Result ι)) (after : τ) : Prop where
  item : ∀ item, outcome = some (.ok item) → ∃ span, remaining before = span ++ remaining after ∧
    encodes before item span ∧ least ≤ span.length
  unconsumed : (∀ item, outcome ≠ some (.ok item)) → remaining after = remaining before
  tooShort : ∀ needed actual, outcome = some (.error (.tooShort needed actual)) →
    actual = (remaining before).length ∧ actual < needed
  optionLength : ∀ kind length,
    outcome = some (.error (.invalidTcpOptionLength kind length)) →
      length.toNat < 2 ∧ [kind, length] <+: remaining before

/-- What calls have returned and the state they leave the iterator in: `Ok` items, at most
`most` of them with the error that may follow them, and silence. -/
structure IteratorRun (next : τ → Exec (Option (Result ι) × τ)) (remaining : τ → Bytes)
    (encodes : τ → ι → Bytes → Prop) (least most : ℕ)
    (finished : List (Option (Result ι)) → τ → Prop) (outcomes : List (Option (Result ι)))
    (it : τ) : Prop where
  shape : ∃ items error silent,
    outcomes = (yielded items error).map some ++ List.replicate silent none ∧
      (yielded items error).length ≤ most
  call : ∃ outcome after, next it = .ok (outcome, after) ∧
    CallEffect remaining encodes least it outcome after
  silent : none ∈ outcomes ∨ (∃ error, some (.error error) ∈ outcomes) ∨ finished outcomes it →
    ∀ m, calls next m it = .ok (List.replicate m none, it)

/-! ## Runs of an iterator that follows a reader -/

/-- A reader of bytes: its items are read from the bytes that encode them, and its errors
say what is wrong with the bytes left. -/
structure ReadsBytes (read : σ → Reading σ ι PacketError) (live : σ → τ)
    (remaining : τ → Bytes) (encodes : τ → ι → Bytes → Prop) (least : ℕ) : Prop where
  item : ∀ s item u, read s = .item item u → ∃ span,
    remaining (live s) = span ++ remaining (live u) ∧ encodes (live s) item span ∧
      least ≤ span.length
  tooShort : ∀ s needed actual, read s = .fail (.tooShort needed actual) →
    actual = (remaining (live s)).length ∧ actual < needed
  optionLength : ∀ s kind length, read s = .fail (.invalidTcpOptionLength kind length) →
    length.toNat < 2 ∧ [kind, length] <+: remaining (live s)

section Run

variable {next : τ → Exec (Option (Result ι) × τ)} {read : σ → Reading σ ι PacketError}
  {live errored : σ → τ} {remaining : τ → Bytes} {encodes : τ → ι → Bytes → Prop}
  {least most : ℕ} {s : σ} {outcomes : List (Option (Result ι))} {it : τ}

theorem callEffect_none (it : τ) : CallEffect remaining encodes least it none it where
  item := by simp
  unconsumed := fun _ => rfl
  tooShort := by simp
  optionLength := by simp

/-- A call from a position does to the bytes left what the reader finds there. -/
theorem exists_callEffect (follows : IteratorFollows next read live errored)
    (reads : ReadsBytes read live remaining encodes least)
    (kept : ∀ s, remaining (errored s) = remaining (live s)) (u : σ) :
    ∃ outcome after, next (live u) = .ok (outcome, after) ∧
      CallEffect remaining encodes least (live u) outcome after := by
  cases found : read u with
  | stop => exact ⟨none, live u, follows.stop u found, callEffect_none _⟩
  | fail error =>
    refine ⟨some (.error error), errored u, follows.fail u error found, ?_⟩
    exact {
      item := by simp
      unconsumed := fun _ => kept u
      tooShort := by
        intro needed actual same
        cases same
        exact reads.tooShort u needed actual found
      optionLength := by
        intro kind length same
        cases same
        exact reads.optionLength u kind length found }
  | item item v =>
    refine ⟨some (.ok item), live v, follows.item u item v found, ?_⟩
    exact {
      item := by
        intro item' same
        cases same
        exact reads.item u item v found
      unconsumed := fun other => absurd rfl (other item)
      tooShort := by simp
      optionLength := by simp }

/-- The run of an iterator that follows a reader of bytes. The bound is one on the walks
of the reader, and what finishes the run has to be an end of a walk. -/
theorem iteratorRun_of_called {finished : List (Option (Result ι)) → τ → Prop}
    (follows : IteratorFollows next read live errored)
    (reads : ReadsBytes read live remaining encodes least)
    (kept : ∀ s, remaining (errored s) = remaining (live s))
    (bound : ∀ items u, Passes read s items u →
      items.length ≤ most ∧ ∀ error, read u = .fail error → items.length + 1 ≤ most)
    (silences : ∀ items u, Passes read s items u →
      finished ((yielded items none).map some) (live u) → read u = .stop)
    (called : Called read live errored s outcomes it) :
    IteratorRun next remaining encodes least most finished outcomes it where
  shape := by
    cases called with
    | @running u items passes =>
      refine ⟨items, none, 0, (List.append_nil _).symm, ?_⟩
      simpa [yielded] using (bound items u passes).1
    | @ended t items result silent walk =>
      refine ⟨items, result, silent, rfl, ?_⟩
      obtain ⟨few, fewer⟩ := bound items t walk.passes
      cases result with
      | none => simpa [yielded] using few
      | some error => simpa [yielded] using fewer error walk.ends
  call := by
    rcases follows.silent_or_running called with silent | ⟨u, items, _, _, rfl⟩
    · exact ⟨none, it, silent, callEffect_none it⟩
    · exact exists_callEffect follows reads kept u
  silent := by
    intro ended
    refine calls_silent ?_
    rcases follows.silent_or_running called with silent | ⟨u, items, passes, rfl, rfl⟩
    · exact silent
    · -- Calls on the way have returned `Ok` items only.
      rcases ended with quiet | ⟨error, failed⟩ | stops
      · simp at quiet
      · simp [yielded] at failed
      · exact follows.stop u (silences items u passes stops)

end Run

/-! ## The options iterator -/

namespace TcpOptions

/-- An `EOL` has been returned, or no bytes are left. -/
def Finished (outcomes : List (Option (Result TcpOption))) (it : TcpOptions) : Prop :=
  (∃ option, some (.ok option) ∈ outcomes ∧ option.kind = .eol) ∨ it.remaining = []

theorem one_le_length_reencode (option : TcpOption) : 1 ≤ option.reencode.length := by
  unfold TcpOption.reencode
  split <;> simp

theorem readsBytes : ReadsBytes readOption live TcpOptions.remaining
    (fun _ option span => span = option.reencode) 1 where
  item := by
    intro s option u found
    exact ⟨option.reencode, reencode_of_item found, rfl, one_le_length_reencode option⟩
  tooShort := by
    intro s needed actual fails
    rcases readOption_fail_cases fails with ⟨kind, here, same⟩ | ⟨kind, length, body, here, reason⟩
    · cases same
      simp [here]
    · rcases reason with ⟨_, same⟩ | ⟨overrun, same⟩
      · cases same
      · cases same
        exact ⟨by simp [here], overrun⟩
  optionLength := by
    intro s kind length fails
    rcases readOption_fail_cases fails with ⟨_, _, same⟩ | ⟨_, _, body, here, reason⟩
    · cases same
    · rcases reason with ⟨short, same⟩ | ⟨_, same⟩
      · cases same
        exact ⟨short, body, here.symm⟩
      · cases same

/-- An error is about a byte that is left. -/
theorem left_of_fail {u : Bytes × Bool} {error : PacketError} (fails : readOption u = .fail error) :
    1 ≤ u.1.length := by
  rcases readOption_fail_cases fails with ⟨kind, here, _⟩ | ⟨kind, length, body, here, _⟩
  · simp [here]
  · simp [here]

/-- After an `EOL` a walk is at its end. -/
theorem done_of_passes {s u : Bytes × Bool} {items : List TcpOption}
    (passes : Passes readOption s items u) {option : TcpOption} (mem : option ∈ items)
    (eol : option.kind = .eol) : u.2 = true := by
  induction passes with
  | nil s => simp at mem
  | @cons s v u first items found rest ih =>
    rcases List.mem_cons.mp mem with rfl | later
    · have done := done_of_eol found eol
      -- Nothing is read from there, so the walk goes no further.
      cases rest with
      | nil _ => exact done
      | cons again _ =>
        rw [readOption_eq_stop_iff.mpr (.inl done)] at again
        cases again
    · exact ih later

/-- A run over an options region. -/
abbrev Run (region : Bytes) : List (Option (Result TcpOption)) → TcpOptions → Prop :=
  IteratorRun next TcpOptions.remaining (fun _ option span => span = option.reencode) 1
    region.length Finished

theorem exists_run (region : Bytes) (n : ℕ) :
    ∃ outcomes it, calls next n ⟨region, false, false⟩ = .ok (outcomes, it) ∧
      Run region outcomes it := by
  obtain ⟨outcomes, it, ran, called⟩ := next_follows.exists_calls (region, false) n
  refine ⟨outcomes, it, ran, iteratorRun_of_called next_follows readsBytes (fun _ => rfl)
    ?_ ?_ called⟩
  · intro items u passes
    have few : items.length + u.1.length ≤ region.length := length_items_le passes
    refine ⟨by omega, ?_⟩
    intro error fails
    have left := left_of_fail fails
    omega
  · intro items u passes finished
    rcases finished with ⟨option, mem, eol⟩ | empty
    · have passed : option ∈ items := by simpa [yielded] using mem
      exact readOption_eq_stop_iff.mpr (.inl (done_of_passes passes passed eol))
    · exact readOption_eq_stop_iff.mpr (.inr empty)

end TcpOptions

/-! ## The extension-header iterator -/

namespace NextHeaders

open NextHeaderType (ofByte)

theorem readsBytes : ReadsBytes readHeader live NextHeaders.remaining
    (fun it header span => span.length = header.lenBytes ∧ Spans it.next header span) 8 where
  item := by
    intro s header u found
    obtain ⟨span, split, size, spans⟩ := exists_span found
    have used := readHeader_consumes s header u found
    rw [split, List.length_append] at used
    exact ⟨span, split, ⟨size, spans⟩, by omega⟩
  tooShort := by
    intro s needed actual fails
    obtain ⟨_, ⟨short, same⟩ | ⟨_, overrun, same⟩⟩ := readHeader_eq_fail_iff.mp fails
    · cases same
      exact ⟨rfl, short⟩
    · cases same
      exact ⟨rfl, overrun⟩
  optionLength := by
    intro s kind length fails
    obtain ⟨_, ⟨_, same⟩ | ⟨_, _, same⟩⟩ := readHeader_eq_fail_iff.mp fails
    · cases same
    · cases same

/-- A run over an extension-header region. -/
abbrev Run (region : Bytes) : List (Option (Result NextHeader)) → NextHeaders → Prop :=
  IteratorRun iterNext NextHeaders.remaining
    (fun it header span => span.length = header.lenBytes ∧ Spans it.next header span) 8
    (region.length / 8 + 1) fun _ it => (ofByte it.next).isExtension = false

theorem exists_run (region : Bytes) (first : UInt8) (n : ℕ) :
    ∃ outcomes it, calls iterNext n ⟨region, first, false⟩ = .ok (outcomes, it) ∧
      Run region outcomes it := by
  obtain ⟨outcomes, it, ran, called⟩ := iterNext_follows.exists_calls (first, region) n
  refine ⟨outcomes, it, ran, iteratorRun_of_called iterNext_follows readsBytes (fun _ => rfl)
    ?_ ?_ called⟩
  · intro items u passes
    have few : items.length ≤ region.length / 8 := length_items_le passes
    exact ⟨Nat.le_succ_of_le few, fun _ _ => Nat.succ_le_succ few⟩
  · intro items u _ upper
    exact readHeader_eq_stop_iff.mpr upper

end NextHeaders

/-- From every region, any number of calls of either iterator return and make a run. -/
theorem headerIterators_run :
    (∀ (region : Bytes) (n : ℕ), ∃ outcomes it,
      calls TcpOptions.next n ⟨region, false, false⟩ = .ok (outcomes, it) ∧
        TcpOptions.Run region outcomes it) ∧
    (∀ (region : Bytes) (first : UInt8) (n : ℕ), ∃ outcomes it,
      calls NextHeaders.iterNext n ⟨region, first, false⟩ = .ok (outcomes, it) ∧
        NextHeaders.Run region outcomes it) :=
  ⟨TcpOptions.exists_run, NextHeaders.exists_run⟩

/-- The iterator stops after an error. -/
example : calls TcpOptions.next 3 ⟨[2, 1, 0, 0], false, false⟩ =
    .ok ([some (.error (.invalidTcpOptionLength 2 1)), none, none], ⟨[2, 1, 0, 0], true, false⟩) :=
  rfl

end Packet
