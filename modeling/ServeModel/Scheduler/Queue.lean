import ServeModel.Scheduler.Reservation
import Mathlib.Data.Finset.Basic

namespace Scheduler

-- Instants and durations are in nanoseconds.
abbrev Instant := Nat

def fromMillis (ms : Nat) : Nat :=
  ms * 1000000

structure QueueEntry (α : Type) where
  item : α
  deferredUntil : Option Instant := none

namespace QueueEntry

variable {α : Type}

def isReady (now : Instant) (entry : QueueEntry α) : Bool :=
  entry.deferredUntil.all (· ≤ now)

def clear (entry : QueueEntry α) : QueueEntry α :=
  { entry with deferredUntil := none }

end QueueEntry

structure PriorityQueue (α : Type) where
  entries : List (QueueEntry α)
  unschedulableRetryDelay : Nat

namespace PriorityQueue

variable {α : Type}

def items (queue : PriorityQueue α) : List α :=
  queue.entries.map (·.item)

def hasReadyCandidate (queue : PriorityQueue α) (now : Instant) : Bool :=
  queue.entries.any (·.isReady now)

def pushBack (item : α) (queue : PriorityQueue α) : PriorityQueue α :=
  { queue with entries := queue.entries ++ [{ item }] }

def iterReady (queue : PriorityQueue α) (now : Instant) : List α :=
  (queue.entries.filter (·.isReady now)).map (·.item)

def retain (p : α → Bool) (queue : PriorityQueue α) : PriorityQueue α :=
  { queue with entries := queue.entries.filter fun entry => p entry.item }

-- Only the first matching entry is deferred.
def deferFirst (deadline : Instant) (p : α → Bool) : List (QueueEntry α) → List (QueueEntry α)
  | [] => []
  | entry :: rest =>
    if p entry.item then { entry with deferredUntil := some deadline } :: rest
    else entry :: deferFirst deadline p rest

def defer (now : Instant) (p : α → Bool) (queue : PriorityQueue α) : PriorityQueue α :=
  { queue with entries := deferFirst (now + queue.unschedulableRetryDelay) p queue.entries }

def clearDeferrals (queue : PriorityQueue α) : PriorityQueue α :=
  { queue with entries := queue.entries.map QueueEntry.clear }

-- Entries that are ready lose their expired deadline.
def clearExpired (now : Instant) (queue : PriorityQueue α) : PriorityQueue α :=
  { queue with
    entries := queue.entries.map fun entry => if entry.isReady now then entry.clear else entry }

@[simp]
theorem items_pushBack {queue : PriorityQueue α} : (queue.pushBack a).items = queue.items ++ [a] := by
  simp [items, pushBack]

@[simp]
theorem items_retain {queue : PriorityQueue α} : (queue.retain p).items = queue.items.filter p := by
  simp [items, retain, List.filter_map, Function.comp_def]

@[simp]
theorem items_defer {queue : PriorityQueue α} : (queue.defer now p).items = queue.items := by
  have h : ∀ d (es : List (QueueEntry α)), (deferFirst d p es).map (·.item) = es.map (·.item) := by
    intro d es
    induction es
    case nil => rfl
    case cons e es hi => simp only [deferFirst]; split <;> simp [hi]
  exact h _ _

@[simp]
theorem items_clearDeferrals {queue : PriorityQueue α} : queue.clearDeferrals.items = queue.items := by
  simp [items, clearDeferrals, QueueEntry.clear, Function.comp_def]

@[simp]
theorem items_clearExpired {queue : PriorityQueue α} : (queue.clearExpired now).items = queue.items := by
  simp only [items, clearExpired, List.map_map]
  congr 1
  funext e
  simp only [Function.comp_apply]
  split <;> rfl

theorem mem_items_of_mem_iterReady {queue : PriorityQueue α} (h : a ∈ queue.iterReady now) :
    a ∈ queue.items := by
  have ⟨e, he, ha⟩ := List.mem_map.mp h
  exact List.mem_map.mpr ⟨e, (List.mem_filter.mp he).1, ha⟩

end PriorityQueue

structure QueuedRequest where
  msg : Message
  payload : SchedulePayload
  enqueuedAt : Instant

structure QueueSelection where
  request : QueuedRequest
  status : QueueCandidateStatus

-- The weighted sum of the queue metrics, a floating point number in the source. Numbers are compared by
-- the total order, which is the order of the integers that they are mapped to.
abbrev Score := QueuedRequest → QueueCandidateStatus → Instant → Int

def rankReadyCandidates (score : Score) (view : ResourceAvailabilityView) (now : Instant)
    (queue : PriorityQueue QueuedRequest) : List QueueSelection :=
  let ready := (queue.iterReady now).map fun request =>
    (⟨request, view.evaluateCandidateStatus request.payload⟩ : QueueSelection)
  -- highest score first, insertion order among equals
  ready.insertionSort fun a b => score b.request b.status now ≤ score a.request a.status now

theorem mem_rankReadyCandidates :
    c ∈ rankReadyCandidates score view now queue ↔
      c.request ∈ queue.iterReady now ∧ c.status = view.evaluateCandidateStatus c.request.payload := by
  simp only [rankReadyCandidates, List.mem_insertionSort, List.mem_map]
  constructor
  case mp =>
    intro ⟨r, hr, hc⟩
    subst hc
    exact ⟨hr, rfl⟩
  case mpr =>
    intro ⟨hr, hs⟩
    exact ⟨c.request, hr, by rw [← hs]⟩

end Scheduler
