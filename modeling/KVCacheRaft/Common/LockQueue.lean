import KVCacheRaft.Machine.Monitor

/-!
# `LockQueue`

The queue between threads (`common/LockQueue.h`): `applyChan`, the channels the handlers wait on, and
the batches of the WAL writer. Any number of threads push and pop, the consumers wait on one condition
variable, some of them for a limited time only.
-/

namespace KVCacheRaft

open Machine

variable {T : Type}

/-- The methods of `LockQueue`. How long `timeOutPop` waits is not modelled: its time may be up at any
moment. -/
inductive LockQueueMethod (T : Type) where
  | Push (data : T)
  | Pop
  | TryPop
  | TryPopBulk (maxCount : ℕ)
  | timeOutPop
deriving DecidableEq

namespace LockQueue

/-- `Push`. The methods return the elements that they take out. -/
def push (data : T) : Operation (List T) (List T) where
  ready _ := true
  run m_queue := (m_queue ++ [data], [])
  timeout := none
  notifies := true

/-- `Pop`. -/
def pop : Operation (List T) (List T) where
  ready m_queue := !m_queue.isEmpty
  run m_queue := (m_queue.tail, m_queue.head?.toList)
  timeout := none
  notifies := false

/-- `TryPop`, which is true when it returns an element. -/
def tryPop : Operation (List T) (List T) where
  ready _ := true
  run
    | [] => ([], [])
    | data :: m_queue => (m_queue, [data])
  timeout := none
  notifies := false

/-- The loop of `TryPopBulk`, with `count` elements still to take. -/
def popBulk : ℕ → List T → List T → List T × List T
  | count + 1, data :: m_queue, out => popBulk count m_queue (out ++ [data])
  | _, m_queue, out => (m_queue, out)

/-- `TryPopBulk`. -/
def tryPopBulk (maxCount : ℕ) : Operation (List T) (List T) where
  ready _ := true
  run m_queue := popBulk maxCount m_queue []
  timeout := none
  notifies := false

/-- `timeOutPop`. -/
def timeOutPop : Operation (List T) (List T) where
  ready m_queue := !m_queue.isEmpty
  run m_queue := (m_queue.tail, m_queue.head?.toList)
  timeout := some []
  notifies := false

end LockQueue

namespace LockQueueMethod

open LockQueue

def operation : LockQueueMethod T → Operation (List T) (List T)
  | Push data => push data
  | Pop => pop
  | TryPop => tryPop
  | TryPopBulk maxCount => tryPopBulk maxCount
  | timeOutPop => LockQueue.timeOutPop

/-- What a method puts into the queue. -/
def pushed : LockQueueMethod T → List T
  | Push data => [data]
  | _ => []

/-- A bulk takes elements from the front. -/
lemma popBulk_eq (count : ℕ) (m_queue out : List T) :
    (popBulk count m_queue out).2 ++ (popBulk count m_queue out).1 = out ++ m_queue ∧
      (popBulk count m_queue out).1.length ≤ m_queue.length := by
  induction count generalizing m_queue out with
  | zero => exact ⟨rfl, Nat.le_refl _⟩
  | succ count ih =>
    cases m_queue with
    | nil => exact ⟨rfl, Nat.le_refl _⟩
    | cons data m_queue =>
      obtain ⟨heq, hle⟩ := ih m_queue (out ++ [data])
      refine ⟨heq.trans ?_, Nat.le_succ_of_le hle⟩
      rw [List.append_assoc, List.singleton_append]

/-- What a method takes out comes from the front, and what it puts in goes to the back. -/
lemma run_eq (method : LockQueueMethod T) (m_queue : List T) :
    (method.operation.run m_queue).2 ++ (method.operation.run m_queue).1 =
      m_queue ++ method.pushed := by
  cases method with
  | Push data => rfl
  | Pop | timeOutPop =>
    show m_queue.head?.toList ++ m_queue.tail = m_queue ++ []
    cases m_queue <;> simp
  | TryPop => cases m_queue <;> simp [operation, tryPop, pushed]
  | TryPopBulk maxCount => exact (popBulk_eq maxCount m_queue []).1.trans (List.append_nil _).symm

/-- A method that is not ready waits in an empty queue, and takes the first element when it is. -/
lemma waits {method : LockQueueMethod T} {m_queue : List T}
    (h : method.operation.ready m_queue = false) :
    m_queue = [] ∧ method.operation.notifies = false ∧ ∀ m_queue,
      method.operation.ready m_queue = !m_queue.isEmpty ∧
      method.operation.run m_queue = (m_queue.tail, m_queue.head?.toList) := by
  cases method with
  | Pop | timeOutPop =>
    refine ⟨?_, rfl, fun _ => ⟨rfl, rfl⟩⟩
    cases m_queue with
    | nil => rfl
    | cons data m_queue => cases h
  | Push _ | TryPop | TryPopBulk _ => cases h

/-- The elements in the queue are the things that are notified. -/
lemma counts (method : LockQueueMethod T) : Monitor.Counts List.length method.operation where
  nothing m_queue h := by rw [(waits h).1]; rfl
  gives m_queue _ := by
    cases method with
    | Push data => exact (List.length_append).le
    | Pop | timeOutPop => exact (List.length_tail ▸ Nat.sub_le _ _ : m_queue.tail.length ≤ _)
    | TryPop =>
      cases m_queue with
      | nil => exact Nat.le_refl _
      | cons data m_queue => exact Nat.le_succ _
    | TryPopBulk maxCount => exact (popBulk_eq maxCount m_queue []).2
  takes s t hs ht := by
    obtain ⟨-, -, hrun⟩ := waits hs
    obtain ⟨hready, htake⟩ := hrun t
    rw [htake]
    cases t with
    | nil =>
      rw [hready] at ht
      cases ht
    | cons data t => exact Nat.lt_succ_self _

end LockQueueMethod

namespace LockQueue

variable {κ : Type}

/-- Everything pushed, in the order of the pushes. -/
def pushed (done : List (Returned κ (LockQueueMethod T) (List T))) : List T :=
  done.flatMap fun r => r.method.pushed

/-- Everything handed out, in the order in which it was. -/
def delivered (done : List (Returned κ (LockQueueMethod T) (List T))) : List T :=
  done.flatMap (·.result)

/-- What one more call returns is delivered behind the others. -/
lemma delivered_concat (done : List (Returned κ (LockQueueMethod T) (List T)))
    (r : Returned κ (LockQueueMethod T) (List T)) :
    delivered (done ++ [r]) = delivered done ++ r.result := by
  simp [delivered]

/-- What is delivered and what is left are what was pushed. -/
lemma fifo {done : List (Returned κ (LockQueueMethod T) (List T))} {m_queue : List T}
    (h : Monitor.Atomic LockQueueMethod.operation [] done m_queue) :
    delivered done ++ m_queue = pushed done := by
  induction h with
  | nil => rfl
  | @run done m_queue k method _ _ ih =>
    have hrun := method.run_eq m_queue
    rw [delivered_concat, List.append_assoc, hrun, ← List.append_assoc, ih]
    simp [pushed]
  | @late done m_queue k method result _ hready htimeout ih =>
    cases method with
    | timeOutPop =>
      obtain rfl := Option.some.inj htimeout
      rw [delivered_concat, List.append_nil, ih]
      simp [pushed, LockQueueMethod.pushed]
    | Push _ | Pop | TryPop | TryPopBulk _ => cases htimeout

variable [DecidableEq κ] [Fintype κ]

/-- For any number of threads that call the methods at any time, with spurious wakeups and times that
are up at any moment: what is pushed is handed out once, in the order in which it was pushed; and as
long as a consumer sleeps and the queue is not empty, as many consumers are awake as there are elements,
and one of them takes the next element when it gets the mutex. -/
theorem delivers_in_order {m : Monitor κ (LockQueueMethod T) (List T) (List T)}
    (h : Run (Monitor.step LockQueueMethod.operation) (fun _ _ => True) (.initial []) m) :
    delivered m.done ++ m.state = pushed m.done ∧
      ∀ k method, m.place k = .waiting method → m.state.length ≤ Monitor.awake m.place ∧
        ∀ data ∈ m.state.head?, ∃ j m', (m.place j).isWoken = true ∧
          m.step LockQueueMethod.operation (.lock j none) = some m' ∧
          delivered m'.done = delivered m.done ++ [data] := by
  refine ⟨fifo (Monitor.atomic_of_run h), fun k method hk => ?_⟩
  have hle := Monitor.awake_le LockQueueMethod.counts h hk
  refine ⟨hle, fun data hdata => ?_⟩
  have hpos : 0 < m.state.length := List.length_pos_iff.mpr (by
    rintro hnil
    rw [hnil] at hdata
    cases hdata)
  obtain ⟨j, hj⟩ := Finset.card_pos.mp (hpos.trans_le hle)
  have hwoken : (m.place j).isWoken = true := by simpa using hj
  obtain ⟨method', hj⟩ := Place.isWoken_iff.mp hwoken
  have hproper := Monitor.proper_of_run h j
  rw [hj] at hproper
  obtain ⟨s, hs⟩ := hproper
  obtain ⟨-, hnotifies, hrun⟩ := LockQueueMethod.waits hs
  obtain ⟨hready, htake⟩ := hrun m.state
  have hready' : (method'.operation).ready m.state = true := by
    rw [hready]
    cases hstate : m.state with
    | nil =>
      rw [hstate] at hpos
      cases hpos
    | cons _ _ => rfl
  refine ⟨j, m.finish j method' m.state.tail [data], hwoken, ?_, delivered_concat _ _⟩
  have hhead : m.state.head? = some data := hdata
  rw [Monitor.step, hj]
  simp [Monitor.act, hready', hnotifies, htake, hhead]

/-- Two consumers sleep, and one is woken by a push: it takes the element. -/
theorem delivers_in_order_push :
    ∃ m : Monitor (Fin 3) (LockQueueMethod ℕ) (List ℕ) (List ℕ),
      m.state = [7] ∧ delivered m.done ++ m.state = pushed m.done ∧
      ∃ j m', (m.place j).isWoken = true ∧
        m.step LockQueueMethod.operation (.lock j none) = some m' ∧
        delivered m'.done = delivered m.done ++ [7] := by
  have h : ∃ m ∈ runIf (Monitor.step LockQueueMethod.operation) (fun _ _ => True)
      (Monitor.initial ([] : List ℕ))
      [.call (0 : Fin 3) .Pop, .lock 0 none, .call 1 .timeOutPop, .lock 1 none, .call 2 (.Push 7),
        .lock 2 (some 0)], m.state = [7] ∧ (m.place 1).waits = true := by decide
  obtain ⟨m, hm, hstate, hwaits⟩ := h
  obtain ⟨method, hwaits⟩ := Place.waits_iff.mp hwaits
  obtain ⟨hfifo, hwakeup⟩ := delivers_in_order (run_of_runIf hm)
  obtain ⟨-, hnext⟩ := hwakeup 1 method hwaits
  rw [hstate] at hnext
  exact ⟨m, hstate, hfifo, hnext 7 rfl⟩

end LockQueue

end KVCacheRaft
