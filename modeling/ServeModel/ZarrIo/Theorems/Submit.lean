import ServeModel.ZarrIo.Submit
import Mathlib.Algebra.GroupWithZero.Nat
import Mathlib.Algebra.Order.BigOperators.Group.List

namespace ZarrIo

open List

variable {Task : Type}

section Lists

variable {α : Type} {l : List α} {i : Nat} {a b : α}

theorem countP_set (p : α → Bool) (h : l[i]? = some a) :
    (l.set i b).countP p + (p a).toNat = l.countP p + (p b).toNat := by
  induction l generalizing i
  case nil => simp at h
  case cons x l hi =>
    cases i
    case zero =>
      cases h
      cases ha : p a <;> cases hb : p b <;> simp [ha, hb]
    case succ i =>
      have := hi h
      cases hx : p x <;> simp [hx] <;> omega

theorem sum_map_set (f : α → Nat) (h : l[i]? = some a) :
    ((l.set i b).map f).sum + f a = (l.map f).sum + f b := by
  induction l generalizing i
  case nil => simp at h
  case cons x l hi =>
    cases i
    case zero =>
      cases h
      simp
      omega
    case succ i =>
      have := hi h
      simp only [set_cons_succ, map_cons, sum_cons]
      omega

theorem exists_split_at (h : k < l.length) : ∃ l₁ x l₂, l = l₁ ++ x :: l₂ ∧ l₁.length = k :=
  ⟨l.take k, l[k], l.drop (k + 1), by simp, by simp; omega⟩

end Lists

namespace CopyWorker

def isFinished : CopyWorker Task → Bool
  | finished => true
  | _ => false

def isStarted : CopyWorker Task → Bool
  | queued => false
  | _ => true

def isCopying : CopyWorker Task → Bool
  | copying _ => true
  | _ => false

def isFailing : CopyWorker Task → Bool
  | failing _ => true
  | _ => false

-- The worker has received a task and is not done with it.
def holdsTask : CopyWorker Task → Bool
  | copying _ | enqueuing _ | failing _ => true
  | _ => false

-- How many steps a worker has left, but for those of the tasks it may still receive.
def rank : CopyWorker Task → Nat
  | queued => 3
  | checking => 2
  | receiving => 1
  | copying _ => 5
  | enqueuing _ => 4
  | failing _ => 1
  | finished => 0

end CopyWorker

namespace Producer

def isSending : Producer → Bool
  | sending => true
  | _ => false

def rank : Producer → Nat
  | checking => 3
  | submitting => 2
  | sending => 1
  | finished => 0

end Producer

namespace SubmitWrite

open CopyWorker

variable {numThreads queueCapacity n : Nat} {s s' : SubmitWrite Task} {tasks : List Task}

-- A task costs the producer and a worker eleven steps, of which the queue is behind six.
def measure (s : SubmitWrite Task) : Nat :=
  10 * s.tasks.length + s.producer.rank + 5 * s.queue.length + (s.workers.map CopyWorker.rank).sum +
    s.result.isNone.toNat

theorem Step.measure_lt (h : Step numThreads queueCapacity s s') : s'.measure < s.measure := by
  cases h
  all_goals simp only [measure, setWorker, recordFirstError]
  all_goals grind [sum_map_set, CopyWorker.rank, Producer.rank]

structure Inv (numThreads queueCapacity n : Nat) (s : SubmitWrite Task) : Prop where
  workers : 0 < s.workers.length
  queue : s.queue.length ≤ queueCapacity
  cancelled : s.cancelled = s.firstError.isSome
  todo : s.producer = .submitting ∨ s.producer = .sending → s.tasks ≠ []
  sent : s.tasks.length + s.queue.length ≤ n
  single : numThreads = 1 → s.producer ≠ .finished → s.workers.countP isStarted = 0
  untouched : s.workers.countP isStarted = 0 → s.tasks.length + s.queue.length = n
  taken : 0 < s.workers.countP holdsTask ∨ (s.cancelled = true ∧ s.producer ≠ .finished) →
    s.tasks.length + s.queue.length < n
  finished : 0 < s.workers.countP isFinished → s.cancelled = false → s.producer = .finished ∧ s.queue = []
  copied : s.cancelled = false → s.workers.countP isFailing = 0 →
    s.submitted = s.copied + s.queue.length + s.workers.countP isCopying + s.producer.isSending.toNat

section

variable (h : Step numThreads queueCapacity s s')
include h

theorem Step.length_workers : s'.workers.length = s.workers.length := by
  cases h
  all_goals simp [setWorker, recordFirstError]

theorem Step.length_queue (hq : s.queue.length ≤ queueCapacity) : s'.queue.length ≤ queueCapacity := by
  cases h
  all_goals simp only [setWorker, recordFirstError, length_append, length_singleton]
  all_goals grind

theorem Step.cancelled_eq (hc : s.cancelled = s.firstError.isSome) : s'.cancelled = s'.firstError.isSome := by
  cases h
  all_goals simp [setWorker, recordFirstError, hc]

theorem Step.todo (ht : s.producer = .submitting ∨ s.producer = .sending → s.tasks ≠ []) :
    s'.producer = .submitting ∨ s'.producer = .sending → s'.tasks ≠ [] := by
  cases h
  all_goals simp only [setWorker, recordFirstError]
  all_goals grind

theorem Step.sent (hs : s.tasks.length + s.queue.length ≤ n) : s'.tasks.length + s'.queue.length ≤ n := by
  cases h
  all_goals simp only [setWorker, recordFirstError, length_append, length_singleton]
  all_goals grind

theorem Step.single (hs : s.producer ≠ .finished → s.workers.countP isStarted = 0) (ht : numThreads = 1) :
    s'.producer ≠ .finished → s'.workers.countP isStarted = 0 := by
  cases h
  case start hw hb =>
    intro hp
    cases hq : s.producer
    case finished => exact absurd hq hp
    all_goals simp [busyThreads, hq, Producer.isRunning, ht] at hb
  all_goals simp only [setWorker, recordFirstError]
  all_goals grind [countP_set, isStarted]

theorem Step.untouched (hs : s.workers.countP isStarted = 0 → s.tasks.length + s.queue.length = n) :
    s'.workers.countP isStarted = 0 → s'.tasks.length + s'.queue.length = n := by
  cases h
  all_goals simp only [setWorker, recordFirstError, length_append, length_singleton]
  all_goals grind [countP_set, isStarted]

theorem Step.taken (hs : s.tasks.length + s.queue.length ≤ n)
    (ht : 0 < s.workers.countP holdsTask ∨ (s.cancelled = true ∧ s.producer ≠ .finished) →
      s.tasks.length + s.queue.length < n) :
    0 < s'.workers.countP holdsTask ∨ (s'.cancelled = true ∧ s'.producer ≠ .finished) →
      s'.tasks.length + s'.queue.length < n := by
  cases h
  all_goals simp only [setWorker, recordFirstError, length_append, length_singleton]
  all_goals grind [countP_set, holdsTask]

-- Without an error a worker only finishes because the channel is empty and has no sender.
theorem Step.finished
    (hf : 0 < s.workers.countP isFinished → s.cancelled = false → s.producer = .finished ∧ s.queue = []) :
    0 < s'.workers.countP isFinished → s'.cancelled = false → s'.producer = .finished ∧ s'.queue = [] := by
  cases h
  all_goals simp only [setWorker, recordFirstError]
  all_goals grind [countP_set, isFinished]

theorem Step.copied_eq
    (hc : s.cancelled = false → s.workers.countP isFailing = 0 →
      s.submitted = s.copied + s.queue.length + s.workers.countP isCopying + s.producer.isSending.toNat) :
    s'.cancelled = false → s'.workers.countP isFailing = 0 →
      s'.submitted = s'.copied + s'.queue.length + s'.workers.countP isCopying + s'.producer.isSending.toNat := by
  cases h
  all_goals simp only [setWorker, recordFirstError, length_append, length_singleton]
  all_goals grind [countP_set, isFailing, isCopying, Producer.isSending]

end

theorem Inv.step (hi : Inv numThreads queueCapacity n s) (h : Step numThreads queueCapacity s s') :
    Inv numThreads queueCapacity n s' where
  workers := h.length_workers ▸ hi.workers
  queue := h.length_queue hi.queue
  cancelled := h.cancelled_eq hi.cancelled
  todo := h.todo hi.todo
  sent := h.sent hi.sent
  single ht := h.single (hi.single ht) ht
  untouched := h.untouched hi.untouched
  taken := h.taken hi.sent hi.taken
  finished := h.finished hi.finished
  copied := h.copied_eq hi.copied

theorem countP_start (p : CopyWorker Task → Bool) (h : p .queued = false) :
    (start numThreads tasks).workers.countP p = 0 := by
  rw [countP_eq_zero]
  intro w hw
  simp [eq_of_mem_replicate hw, h]

theorem Inv.init (hn : tasks ≠ []) (ht : 1 ≤ numThreads) :
    Inv numThreads queueCapacity tasks.length (start numThreads tasks) where
  workers := by
    simp only [start, List.isEmpty_iff, hn, if_false, List.length_replicate]
    omega
  queue := Nat.zero_le _
  cancelled := rfl
  todo := by simp [start]
  sent := Nat.le_refl _
  single _ _ := countP_start isStarted rfl
  untouched _ := rfl
  taken h := by rw [countP_start holdsTask rfl] at h; simp [start] at h
  finished h := by rw [countP_start isFinished rfl] at h; cases h
  copied _ _ := by rw [countP_start isCopying rfl]; rfl

theorem Inv.countP_isFinished (hi : Inv numThreads queueCapacity n s) (hf : ∀ w ∈ s.workers, w = .finished) :
    0 < s.workers.countP isFinished := by
  have ⟨w, hw⟩ := exists_mem_of_length_pos hi.workers
  exact countP_pos_iff.mpr ⟨w, hw, by rw [hf w hw, isFinished]⟩

theorem idle_of_stuck (hs : ∀ s', ¬Step numThreads queueCapacity s s') (hw : w ∈ s.workers) :
    w = .queued ∨ w = .receiving ∨ w = .finished := by
  have ⟨i, hi⟩ := mem_iff_getElem?.mp hw
  cases w
  case queued => exact .inl rfl
  case receiving => exact .inr (.inl rfl)
  case finished => exact .inr (.inr rfl)
  case checking =>
    cases hc : s.cancelled
    case true => exact absurd (.quit hi hc) (hs _)
    case false => exact absurd (.goOn hi hc) (hs _)
  case copying => exact absurd (.markCopied hi) (hs _)
  case enqueuing => exact absurd (.enqueue hi) (hs _)
  case failing => exact absurd (.record hi) (hs _)

-- With the producer at its end, or with a task in the queue, nobody waits for one.
theorem not_receiving_of_stuck (hs : ∀ s', ¬Step numThreads queueCapacity s s')
    (hq : s.queue ≠ [] ∨ s.producer = .finished) : .receiving ∉ s.workers := by
  intro hw
  have ⟨i, hi⟩ := mem_iff_getElem?.mp hw
  cases h : s.queue
  case cons => exact hs _ (.recv hi h)
  case nil => exact hs _ (.disconnected hi h (hq.resolve_left (· h)))

theorem not_queued_of_stuck (hs : ∀ s', ¬Step numThreads queueCapacity s s') (hr : .receiving ∉ s.workers)
    (ht : s.producer.isRunning.toNat < numThreads) : .queued ∉ s.workers := by
  intro hw
  have ⟨i, hi⟩ := mem_iff_getElem?.mp hw
  have hz : s.workers.countP CopyWorker.isRunning = 0 := by
    rw [countP_eq_zero]
    intro w hw
    have := idle_of_stuck hs hw
    grind [CopyWorker.isRunning]
  exact hs _ (.start hi (by simpa [busyThreads, hz] using ht))

theorem finished_of_stuck (hs : ∀ s', ¬Step numThreads queueCapacity s s')
    (hq : s.queue ≠ [] ∨ s.producer = .finished) (ht : s.producer.isRunning.toNat < numThreads) :
    ∀ w ∈ s.workers, w = .finished := by
  have hr := not_receiving_of_stuck hs hq
  have hu := not_queued_of_stuck hs hr ht
  intro w hw
  have := idle_of_stuck hs hw
  grind

-- The threads of the pool that the body of the scope leaves to the workers let the producer send one more task.
def spareTask (numThreads : Nat) : Nat :=
  if numThreads = 1 then 0 else 1

theorem Inv.not_blocked (hi : Inv numThreads queueCapacity n s) (ht : 1 ≤ numThreads) (hq : 1 ≤ queueCapacity)
    (hn : n ≤ queueCapacity + spareTask numThreads) (hs : ∀ s', ¬Step numThreads queueCapacity s s') :
    s.producer ≠ .sending := by
  intro hp
  have ⟨task, rest, htasks⟩ := exists_cons_of_ne_nil (hi.todo (.inr hp))
  have hlen : s.queue.length = queueCapacity := by
    have := hi.queue
    have : ¬s.queue.length < queueCapacity := fun h => hs _ (.send hp htasks h)
    omega
  have hpos : 1 ≤ s.tasks.length := by simp [htasks]
  by_cases h1 : numThreads = 1
  case pos =>
    -- no worker has had a thread
    have := hi.untouched (hi.single h1 (by simp [hp]))
    simp only [spareTask, h1, if_true] at hn
    omega
  case neg =>
    -- every worker has given up, because one of them failed
    have hne : s.queue ≠ [] := ne_nil_of_length_pos (by omega)
    have hf := finished_of_stuck hs (.inl hne) (by simp [hp, Producer.isRunning]; omega)
    have hc : s.cancelled = true := by
      by_contra hc
      have := (hi.finished (hi.countP_isFinished hf) (by simpa using hc)).1
      simp [hp] at this
    have := hi.taken (.inr ⟨hc, by simp [hp]⟩)
    simp only [spareTask, h1, if_false] at hn
    omega

theorem Inv.ended (hi : Inv numThreads queueCapacity n s) (hs : ∀ s', ¬Step numThreads queueCapacity s s')
    (he : s.ScopeEnded) : s.result.isSome := by
  cases hr : s.result
  case some => rfl
  case none =>
    cases hf : s.firstError
    case some err => exact absurd (.fail err hr he hf) (hs _)
    case none =>
      have hc : s.cancelled = false := by rw [hi.cancelled, hf]; rfl
      have hzero (p : CopyWorker Task → Bool) (h : p .finished = false) : s.workers.countP p = 0 := by
        rw [countP_eq_zero]
        intro w hw
        simp [he.workers w hw, h]
      have hq := (hi.finished (hi.countP_isFinished he.workers) hc).2
      have := hi.copied hc (hzero isFailing rfl)
      simp only [hq, hzero isCopying rfl, he.producer, Producer.isSending, length_nil, Bool.toNat_false] at this
      exact absurd (.acknowledge hr he hf (by omega)) (hs _)

theorem Inv.ends (hi : Inv numThreads queueCapacity n s) (ht : 1 ≤ numThreads) (hq : 1 ≤ queueCapacity)
    (hn : n ≤ queueCapacity + spareTask numThreads) (hs : ∀ s', ¬Step numThreads queueCapacity s s') :
    s.result.isSome := by
  cases hr : s.result
  case some => rfl
  case none =>
    rw [← hr]
    cases hp : s.producer
    case checking =>
      by_cases h : s.tasks = []
      case pos => exact absurd (.dropSender hr hp h) (hs _)
      case neg =>
        cases hc : s.cancelled
        case true => exact absurd (.stop hr hp h hc) (hs _)
        case false => exact absurd (.next hr hp h hc) (hs _)
    case submitting => exact absurd (.submit hp) (hs _)
    case sending => exact absurd hp (hi.not_blocked ht hq hn hs)
    case finished =>
      exact hi.ended hs ⟨hp, finished_of_stuck hs (.inr hp) (by simp [hp, Producer.isRunning]; omega)⟩

theorem returns_of_le (ht : 1 ≤ numThreads) (hq : 1 ≤ queueCapacity)
    (hn : tasks.length ≤ queueCapacity + spareTask numThreads) : Returns numThreads queueCapacity tasks := by
  by_cases h : tasks = []
  case pos =>
    subst h
    have hs (s' : SubmitWrite Task) : ¬Step numThreads queueCapacity (start numThreads []) s' := by
      intro h
      cases h
      all_goals simp_all [start]
    exact ⟨⟨_, fun s' h => absurd h (hs s')⟩, fun hr hb => by
      cases hr.cases_head
      case inl h => simp [← h, start]
      case inr h => exact absurd h.choose_spec.1 (hs _)⟩
  case neg =>
    exact .of_measure measure (fun hi hs => ⟨hi.step hs, hs.measure_lt⟩) (fun hi hs => hi.ends ht hq hn hs)
      (Inv.init h ht)

section Blocked

open Relation

theorem sends_one (hr : s.result = none) (hp : s.producer = .checking) (hc : s.cancelled = false)
    (ht : s.tasks = task :: rest) (hq : s.queue.length < queueCapacity) :
    ReflTransGen (Step numThreads queueCapacity) s
      { s with tasks := rest, queue := s.queue ++ [task], submitted := s.submitted + 1 } := by
  have hs : Step numThreads queueCapacity { s with producer := .sending, submitted := s.submitted + 1 } _ :=
    .send rfl ht hq
  exact .head (.next hr hp (by simp [ht]) hc) (.head (.submit rfl) (.single (by simpa [hp] using hs)))

theorem sends (hr : s.result = none) (hp : s.producer = .checking) (hc : s.cancelled = false)
    (ht : s.tasks = sent ++ rest) (hq : s.queue.length + sent.length ≤ queueCapacity) :
    ReflTransGen (Step numThreads queueCapacity) s
      { s with tasks := rest, queue := s.queue ++ sent, submitted := s.submitted + sent.length } := by
  induction sent generalizing s
  case nil =>
    simp only [nil_append] at ht
    simp [← ht, ReflTransGen.refl]
  case cons task sent hi =>
    simp only [length_cons] at hq
    refine (sends_one hr hp hc ht (by omega)).trans ?_
    have := @hi { s with
      tasks := sent ++ rest, queue := s.queue ++ [task], submitted := s.submitted + 1 } hr hp hc rfl
      (by simp; omega)
    simpa [Nat.add_assoc, Nat.add_comm 1] using this

-- After the failure of one worker the others leave without a look at the queue.
theorem quits (ht : 2 ≤ numThreads) (hp : s.producer.isRunning = true) (hc : s.cancelled = true)
    (hw : s.workers = .replicate k .finished ++ .replicate m .queued) :
    ReflTransGen (Step numThreads queueCapacity) s { s with workers := .replicate (k + m) .finished } := by
  induction m generalizing s k
  case zero =>
    simp only [replicate_zero, append_nil] at hw
    simp [← hw, ReflTransGen.refl]
  case succ m hi =>
    have hidle : s.workers.countP CopyWorker.isRunning = 0 := by
      simp [hw, countP_append, countP_replicate, CopyWorker.isRunning]
    have hget : s.workers[k]? = some .queued := by simp [hw, replicate_succ]
    refine .head (.start (i := k) hget (by simp [busyThreads, hp, hidle]; omega)) ?_
    have hk : k < s.workers.length := by simp [hw]
    refine .head (.quit (i := k) (by simp [setWorker, hk]) hc) ?_
    have := @hi ((s.setWorker k .checking).setWorker k .finished) (k + 1) hp hc (by
      rw [replicate_succ']
      simp [setWorker, hw, replicate_succ])
    simpa [setWorker, Nat.add_assoc, Nat.add_comm 1] using this

-- A worker with a thread of its own takes the first task of the queue.
theorem takes_first (ht : 2 ≤ numThreads) (hp : s.producer.isRunning = true) (hc : s.cancelled = false)
    (hq : s.queue = task :: rest) (hw : s.workers = .replicate (m + 1) .queued) :
    ReflTransGen (Step numThreads queueCapacity) s
      { s with queue := rest, workers := .copying task :: .replicate m .queued } := by
  have hidle : s.workers.countP CopyWorker.isRunning = 0 := by
    simp [hw, countP_replicate, CopyWorker.isRunning]
  have hrecv : Step numThreads queueCapacity { s with workers := .receiving :: .replicate m .queued } _ :=
    .recv (i := 0) rfl hq
  refine .head (.start (i := 0) (by simp [hw]) (by simp [busyThreads, hp, hidle]; omega)) ?_
  refine .head (.goOn (i := 0) (by simp [setWorker, hw]) hc) (.single ?_)
  simpa [setWorker, hw, replicate_succ] using hrecv

theorem fails_first (hw : s.workers = .copying task :: others) (err : SyncWriteError) :
    ReflTransGen (Step numThreads queueCapacity) s { s.recordFirstError err with workers := .finished :: others } := by
  have hrecord : Step numThreads queueCapacity { s with workers := .failing err :: others } _ :=
    .record (i := 0) rfl
  refine .head (.copyFails err (i := 0) (by rw [hw]; rfl)) (.single ?_)
  simpa [setWorker, recordFirstError, hw] using hrecord

theorem blocked (hp : s.producer = .sending) (hq : queueCapacity ≤ s.queue.length)
    (hw : ∀ w ∈ s.workers, w = .finished ∨ w = .queued ∧ numThreads ≤ s.busyThreads) :
    ∀ s', ¬Step numThreads queueCapacity s s' := by
  have hget (i : Nat) (w : CopyWorker Task) (hi : s.workers[i]? = some w) :
      w = .finished ∨ w = .queued ∧ numThreads ≤ s.busyThreads :=
    hw w (mem_of_getElem? hi)
  intro s' h
  cases h
  all_goals grind [ScopeEnded]

theorem result_start (hn : 0 < tasks.length) : (start numThreads tasks).result = none := by
  have := ne_nil_of_length_pos hn
  simp [start, this]

-- The queue is full before a worker has a thread.
theorem not_returns_of_single (ht : numThreads = 1) (hn : queueCapacity < tasks.length) :
    ¬Returns numThreads queueCapacity tasks := by
  have hr : (start numThreads tasks).result = none := result_start (by omega)
  have ⟨sent, task, rest, htasks, hlen⟩ := exists_split_at hn
  have h₁ := @sends Task numThreads queueCapacity (start numThreads tasks) _ _ hr rfl rfl htasks
    (by simp [start, hlen])
  have h₂ := (h₁.tail (.next hr rfl (by simp) rfl)).tail (.submit rfl)
  refine Transition.Terminates.not_of_stuck h₂ (blocked rfl ?_ ?_) (by simp [hr])
  · simp [start, hlen]
  · intro w hw
    exact .inr ⟨eq_of_mem_replicate hw, by simp [busyThreads, Producer.isRunning, ht]⟩

-- The producer has passed the flag with a task that no longer fits when the workers leave.
theorem not_returns_of_lt (ht : 2 ≤ numThreads) (hq : 1 ≤ queueCapacity) (hn : queueCapacity + 1 < tasks.length) :
    ¬Returns numThreads queueCapacity tasks := by
  have hr : (start numThreads tasks).result = none := result_start (by omega)
  have ⟨m, hm⟩ : ∃ m, (start numThreads tasks).workers = .replicate (m + 1) .queued := by
    refine ⟨min (max tasks.length 1) numThreads - 1, ?_⟩
    have : tasks ≠ [] := List.ne_nil_of_length_pos (by omega)
    simp only [start, List.isEmpty_iff, this, if_false]
    congr 1
    omega
  have ⟨sent, second, rest, htasks, hlen⟩ := exists_split_at (by omega : queueCapacity < tasks.length)
  have ⟨first, sent', hsent⟩ := List.exists_cons_of_length_pos (by omega : 0 < sent.length)
  have ⟨third, rest', hrest⟩ := List.exists_cons_of_length_pos (by
    have := congrArg List.length htasks
    simp at this
    omega : 0 < rest.length)
  subst hsent hrest
  have h₁ := @sends Task numThreads queueCapacity (start numThreads tasks) _ _ hr rfl rfl htasks
    (by simp [start, hlen])
  have h₂ := h₁.trans (takes_first ht rfl rfl rfl hm)
  have h₃ := h₂.trans (sends_one hr rfl rfl rfl (by simp at hlen ⊢; omega))
  have h₄ := (h₃.tail (.next hr rfl (by simp) rfl)).tail (.submit rfl)
  have h₅ := (h₄.trans (fails_first rfl (.copyFailed ""))).trans (quits (k := 1) ht rfl rfl rfl)
  refine Transition.Terminates.not_of_stuck h₅ (blocked rfl ?_ ?_) ?_
  · simp only [List.length_cons] at hlen
    simp [recordFirstError]
    omega
  · intro w hw
    exact .inl (List.eq_of_mem_replicate hw)
  · simp [recordFirstError, hr]

end Blocked

theorem returns_iff (ht : 1 ≤ numThreads) (hq : 1 ≤ queueCapacity) :
    Returns numThreads queueCapacity tasks ↔ tasks.length ≤ queueCapacity + spareTask numThreads := by
  constructor
  case mp =>
    intro h
    by_contra hn
    by_cases h1 : numThreads = 1
    case pos =>
      exact not_returns_of_single h1 (by omega) h
    case neg =>
      simp only [spareTask, h1, if_false] at hn
      exact not_returns_of_lt (by omega) hq (by omega) h
  case mpr => exact returns_of_le ht hq

end SubmitWrite

section Sequence

variable {configuredQueueCapacity numThreads n c : Nat} {before after : List Nat}

theorem one_le_effectiveQueueCapacity (h : effectiveQueueCapacity configuredQueueCapacity before = some c) :
    1 ≤ c := by
  induction before
  case nil => cases h
  case cons n before hi =>
    cases n
    case zero => exact hi h
    case succ n =>
      simp only [effectiveQueueCapacity, resolveQueueCapacity, Option.getD_none, Option.some.injEq] at h
      omega

theorem one_le_resolveQueueCapacity :
    1 ≤ resolveQueueCapacity configuredQueueCapacity (effectiveQueueCapacity configuredQueueCapacity before) n := by
  cases h : effectiveQueueCapacity configuredQueueCapacity before
  case none =>
    simp only [resolveQueueCapacity, Option.getD_none]
    omega
  case some => exact one_le_effectiveQueueCapacity h

-- The first write with tasks settles the capacity for all of them.
theorem effectiveQueueCapacity_append (hn : 0 < n) :
    effectiveQueueCapacity configuredQueueCapacity (before ++ n :: after) =
      some (resolveQueueCapacity configuredQueueCapacity
        (effectiveQueueCapacity configuredQueueCapacity before) n) := by
  induction before
  case nil =>
    cases n
    case zero => omega
    case succ => rfl
  case cons m before hi =>
    cases m
    case zero => exact hi
    case succ => rfl

-- Every write of a sequence returns exactly if none of them has more tasks than the queue holds, or one more
-- if the copy pool has a thread besides the one of the producer.
theorem submit_write_returns_iff (writes : List (List Task)) (ht : 1 ≤ numThreads) :
    AllReturn numThreads configuredQueueCapacity writes ↔
      ∀ tasks ∈ writes, tasks.length ≤
        (effectiveQueueCapacity configuredQueueCapacity (writes.map List.length)).getD 0 +
          SubmitWrite.spareTask numThreads := by
  have hcap (before after : List (List Task)) (tasks : List Task) (h : writes = before ++ tasks :: after)
      (hn : 0 < tasks.length) :
      (effectiveQueueCapacity configuredQueueCapacity (writes.map List.length)).getD 0 =
        resolveQueueCapacity configuredQueueCapacity
          (effectiveQueueCapacity configuredQueueCapacity (before.map List.length)) tasks.length := by
    rw [h, map_append, map_cons, effectiveQueueCapacity_append hn, Option.getD_some]
  constructor
  case mp =>
    intro h tasks hm
    have ⟨before, after, hw⟩ := append_of_mem hm
    cases Nat.eq_zero_or_pos tasks.length
    case inl hz => omega
    case inr hn =>
      rw [hcap before after tasks hw hn]
      exact (SubmitWrite.returns_iff ht one_le_resolveQueueCapacity).mp (h before tasks after hw)
  case mpr =>
    intro h before tasks after hw
    apply (SubmitWrite.returns_iff ht one_le_resolveQueueCapacity).mpr
    cases Nat.eq_zero_or_pos tasks.length
    case inl hz => omega
    case inr hn =>
      rw [← hcap before after tasks hw hn]
      exact h tasks (by simp [hw])

theorem submit_write_returns_twice : AllReturn 4 1 [[()], [(), (), ()]] :=
  (submit_write_returns_iff _ (by decide)).mpr (by decide)

-- The first write has one task, so that the queue holds two. With one thread the third task of the next write
-- blocks it; with more threads, the fourth one does, once a worker has failed.
theorem submit_write_blocks :
    ¬AllReturn 1 1 [[()], [(), (), ()]] ∧ ¬AllReturn 8 1 [[()], [(), (), (), ()]] := by
  constructor
  case left =>
    intro h
    have := (SubmitWrite.returns_iff (by decide) (by decide)).mp (h [[()]] [(), (), ()] [] rfl)
    exact absurd this (by decide)
  case right =>
    intro h
    have := (SubmitWrite.returns_iff (by decide) (by decide)).mp (h [[()]] [(), (), (), ()] [] rfl)
    exact absurd this (by decide)

end Sequence

end ZarrIo
