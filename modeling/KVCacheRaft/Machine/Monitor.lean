import Mathlib.Data.Fintype.Card
import Mathlib.Data.Fintype.Quotient
import KVCacheRaft.Machine.Runs

/-!
# Monitors

A state behind a mutex with one condition variable. What an operation does under the mutex is one
step, since only the wait for the condition gives the mutex away. A thread that waits goes on when it
is notified, when its time is up, or for no reason at all, and then has to get the mutex again, so that
others may come first. `Atomic` says that every operation takes effect at one moment, `awake_le` that
no notification is lost.
-/

namespace Machine

variable {κ μ σ ρ : Type*}

/-- What an operation does under the mutex: it waits until it is `ready`, and then does `run`. -/
structure Operation (σ ρ : Type*) where
  ready : σ → Bool
  run : σ → σ × ρ
  /-- what it returns when its time is up, if it does not wait for ever -/
  timeout : Option ρ
  /-- it ends with `notify_one` -/
  notifies : Bool

/-- Where a thread is. -/
inductive Place (μ ρ : Type*) where
  | outside
  /-- it wants the mutex -/
  | entering (method : μ)
  | waiting (method : μ)
  /-- it is awake and wants the mutex again -/
  | woken (method : μ)
  /-- its time is up, it wants the mutex again to look a last time -/
  | expired (method : μ) (result : ρ)

namespace Place

def waits : Place μ ρ → Bool
  | .waiting _ => true
  | _ => false

def isWoken : Place μ ρ → Bool
  | .woken _ => true
  | _ => false

/-- The awake thread of a wait. -/
def wake : Place μ ρ → Place μ ρ
  | .waiting method => .woken method
  | place => place

/-- A place that waits waits in a method. -/
lemma waits_iff {p : Place μ ρ} : p.waits = true ↔ ∃ method, p = .waiting method := by
  cases p <;> simp [waits]

/-- A place that is woken waits in a method. -/
lemma isWoken_iff {p : Place μ ρ} : p.isWoken = true ↔ ∃ method, p = .woken method := by
  cases p <;> simp [isWoken]

end Place

/-- A call that has returned. -/
structure Returned (κ μ ρ : Type*) where
  thread : κ
  method : μ
  result : ρ

structure Monitor (κ μ σ ρ : Type*) where
  state : σ
  place : κ → Place μ ρ
  /-- the calls that have returned, by the moments at which they had the mutex -/
  done : List (Returned κ μ ρ)

/-- What can happen. -/
inductive MonitorEvent (κ μ : Type*) where
  | call (k : κ) (method : μ)
  /-- the thread gets the mutex; `wakes` is the thread that its `notify_one` wakes -/
  | lock (k : κ) (wakes : Option κ)
  | timeUp (k : κ)
  | spurious (k : κ)

namespace Monitor

variable [DecidableEq κ]

/-- No thread is outside its calls at first. -/
def initial (s : σ) : Monitor κ μ σ ρ where
  state := s
  place _ := .outside
  done := []

def setPlace (m : Monitor κ μ σ ρ) (k : κ) (p : Place μ ρ) : Monitor κ μ σ ρ :=
  { m with place := Function.update m.place k p }

/-- The call of the thread returns. -/
def finish (m : Monitor κ μ σ ρ) (k : κ) (method : μ) (s : σ) (result : ρ) : Monitor κ μ σ ρ where
  state := s
  place := Function.update m.place k .outside
  done := m.done ++ [⟨k, method, result⟩]

@[simp]
lemma finish_place (m : Monitor κ μ σ ρ) (k : κ) (method : μ) (s : σ) (result : ρ) :
    (m.finish k method s result).place = Function.update m.place k .outside := rfl

variable [Fintype κ]

/-- `notify_one`: one of the threads that wait is woken, if there are any. -/
def notify (m : Monitor κ μ σ ρ) : Option κ → Option (Monitor κ μ σ ρ)
  | some w => if (m.place w).waits then some (m.setPlace w (m.place w).wake) else none
  | none => if ∃ w, (m.place w).waits then none else some m

/-- The thread has the mutex. -/
def act (ops : μ → Operation σ ρ) (m : Monitor κ μ σ ρ) (k : κ) (method : μ)
    (late : Option ρ) (wakes : Option κ) : Option (Monitor κ μ σ ρ) :=
  let op := ops method
  if op.ready m.state then
    let m := m.finish k method (op.run m.state).1 (op.run m.state).2
    if op.notifies then m.notify wakes else some m
  else
    match late with
    | some result => some (m.finish k method m.state result)
    | none => some (m.setPlace k (.waiting method))

def step (ops : μ → Operation σ ρ) (m : Monitor κ μ σ ρ) :
    MonitorEvent κ μ → Option (Monitor κ μ σ ρ)
  | .call k method =>
    match m.place k with
    | .outside => some (m.setPlace k (.entering method))
    | _ => none
  | .lock k wakes =>
    match m.place k with
    | .entering method => m.act ops k method none wakes
    | .woken method => m.act ops k method none wakes
    | .expired method result => m.act ops k method (some result) wakes
    | _ => none
  | .timeUp k =>
    match m.place k with
    | .waiting method => (ops method).timeout.map fun result => m.setPlace k (.expired method result)
    | _ => none
  | .spurious k =>
    match m.place k with
    | .waiting method => some (m.setPlace k (.woken method))
    | _ => none

/-! ### What a step can do -/

/-- The thread is at a place from which it takes the mutex; `late` is what it then returns if it need
not wait any more. -/
inductive Ready (m : Monitor κ μ σ ρ) (k : κ) (method : μ) : Option ρ → Prop where
  | entering : m.place k = .entering method → Ready m k method none
  | woken : m.place k = .woken method → Ready m k method none
  | expired (result : ρ) : m.place k = .expired method result → Ready m k method (some result)

/-- The steps, by what becomes of the thread. -/
inductive Steps (ops : μ → Operation σ ρ) (m : Monitor κ μ σ ρ) :
    MonitorEvent κ μ → Monitor κ μ σ ρ → Prop where
  | call (k : κ) (method : μ) : m.place k = .outside →
    Steps ops m (.call k method) (m.setPlace k (.entering method))
  | run (k : κ) (method : μ) (late : Option ρ) (wakes : Option κ) : m.Ready k method late →
    (ops method).ready m.state = true → (ops method).notifies = false →
    Steps ops m (.lock k wakes)
      (m.finish k method ((ops method).run m.state).1 ((ops method).run m.state).2)
  | notify (k : κ) (method : μ) (late : Option ρ) (wakes : Option κ) (m' : Monitor κ μ σ ρ) :
    m.Ready k method late → (ops method).ready m.state = true → (ops method).notifies = true →
    (m.finish k method ((ops method).run m.state).1 ((ops method).run m.state).2).notify wakes =
      some m' →
    Steps ops m (.lock k wakes) m'
  | wait (k : κ) (method : μ) (wakes : Option κ) : m.Ready k method none →
    (ops method).ready m.state = false → Steps ops m (.lock k wakes) (m.setPlace k (.waiting method))
  | late (k : κ) (method : μ) (result : ρ) (wakes : Option κ) : m.place k = .expired method result →
    (ops method).ready m.state = false →
    Steps ops m (.lock k wakes) (m.finish k method m.state result)
  | timeUp (k : κ) (method : μ) (result : ρ) : m.place k = .waiting method →
    (ops method).timeout = some result → Steps ops m (.timeUp k) (m.setPlace k (.expired method result))
  | spurious (k : κ) (method : μ) : m.place k = .waiting method →
    Steps ops m (.spurious k) (m.setPlace k (.woken method))

variable {ops : μ → Operation σ ρ} {m m' : Monitor κ μ σ ρ} {e : MonitorEvent κ μ} {k : κ}
  {method : μ} {late : Option ρ} {wakes : Option κ}

/-- A turn with the lock is one of the steps. -/
lemma act_cases (hready : m.Ready k method late) (h : m.act ops k method late wakes = some m') :
    Steps ops m (.lock k wakes) m' := by
  simp only [act] at h
  split_ifs at h with hr hn
  · exact .notify k method late wakes m' hready hr hn h
  · obtain rfl := Option.some.inj h
    exact .run k method late wakes hready hr (by simpa using hn)
  · have hr : (ops method).ready m.state = false := by simpa using hr
    cases hready with
    | entering hk =>
      obtain rfl := Option.some.inj h
      exact .wait k method wakes (.entering hk) hr
    | woken hk =>
      obtain rfl := Option.some.inj h
      exact .wait k method wakes (.woken hk) hr
    | expired result hk =>
      obtain rfl := Option.some.inj h
      exact .late k method result wakes hk hr

/-- What is executed is one of the steps. -/
lemma step_cases (h : m.step ops e = some m') : Steps ops m e m' := by
  cases e with
  | call k method =>
    rw [step] at h
    cases hk : m.place k with
    | outside =>
      rw [hk] at h
      obtain rfl := Option.some.inj h
      exact .call k method hk
    | entering _ | waiting _ | woken _ | expired _ _ =>
      rw [hk] at h
      cases h
  | lock k wakes =>
    rw [step] at h
    cases hk : m.place k with
    | entering method =>
      rw [hk] at h
      exact act_cases (.entering hk) h
    | woken method =>
      rw [hk] at h
      exact act_cases (.woken hk) h
    | expired method result =>
      rw [hk] at h
      exact act_cases (.expired result hk) h
    | outside | waiting _ =>
      rw [hk] at h
      cases h
  | timeUp k =>
    rw [step] at h
    cases hk : m.place k with
    | waiting method =>
      rw [hk] at h
      obtain ⟨result, hresult, rfl⟩ := Option.map_eq_some_iff.mp h
      exact .timeUp k method result hk hresult
    | outside | entering _ | woken _ | expired _ _ =>
      rw [hk] at h
      cases h
  | spurious k =>
    rw [step] at h
    cases hk : m.place k with
    | waiting method =>
      rw [hk] at h
      obtain rfl := Option.some.inj h
      exact .spurious k method hk
    | outside | entering _ | woken _ | expired _ _ =>
      rw [hk] at h
      cases h

/-- A notification wakes a waiting thread, or there is none. -/
lemma notify_cases (h : m.notify wakes = some m') :
    (∃ w method, m.place w = .waiting method ∧ m' = m.setPlace w (.woken method)) ∨
      m' = m ∧ ∀ w method, m.place w ≠ .waiting method := by
  cases wakes with
  | some w =>
    rw [notify] at h
    split_ifs at h with hw
    obtain ⟨method, hw⟩ := Place.waits_iff.mp hw
    obtain rfl := Option.some.inj h
    exact .inl ⟨w, method, hw, by rw [hw]; rfl⟩
  | none =>
    rw [notify] at h
    split_ifs at h with hw
    obtain rfl := Option.some.inj h
    refine .inr ⟨rfl, fun w method hwait => hw ⟨w, ?_⟩⟩
    rw [hwait]
    rfl

/-! ### Atomicity -/

/-- The calls that have returned took effect one after the other, each at once. -/
inductive Atomic (ops : μ → Operation σ ρ) (s : σ) : List (Returned κ μ ρ) → σ → Prop where
  | nil : Atomic ops s [] s
  | run {done : List (Returned κ μ ρ)} {t : σ} (k : κ) (method : μ) : Atomic ops s done t →
    (ops method).ready t = true →
    Atomic ops s (done ++ [⟨k, method, ((ops method).run t).2⟩]) ((ops method).run t).1
  | late {done : List (Returned κ μ ρ)} {t : σ} (k : κ) (method : μ) (result : ρ) :
    Atomic ops s done t → (ops method).ready t = false → (ops method).timeout = some result →
    Atomic ops s (done ++ [⟨k, method, result⟩]) t

/-- A thread has waited in an operation that may have to, and a thread whose time is up has the result
of its operation for that. -/
def Proper (ops : μ → Operation σ ρ) : Place μ ρ → Prop
  | .waiting method | .woken method => ∃ s, (ops method).ready s = false
  | .expired method result => (ops method).timeout = some result
  | .outside | .entering _ => True

omit [Fintype κ] in
/-- A place may change to a proper one. -/
lemma proper_update {place : κ → Place μ ρ} (h : ∀ k, Proper ops (place k)) {k : κ} {p : Place μ ρ}
    (hp : Proper ops p) (j : κ) : Proper ops (Function.update place k p j) := by
  by_cases hj : j = k
  · subst hj
    rw [Function.update_self]
    exact hp
  · rw [Function.update_of_ne hj]
    exact h j

/-- Every step keeps the places proper. -/
lemma proper_step (h : ∀ k, Proper ops (m.place k)) (hs : Steps ops m e m') :
    ∀ k, Proper ops (m'.place k) := by
  cases hs with
  | call k method _ => exact proper_update h trivial
  | run k method late wakes _ _ _ => exact proper_update h trivial
  | notify k method late wakes _ _ _ _ hnotify =>
    have hfinish : ∀ j, Proper ops (Function.update m.place k .outside j) := proper_update h trivial
    obtain ⟨w, method', hw, rfl⟩ | ⟨rfl, -⟩ := notify_cases hnotify
    · have hwait := hfinish w
      rw [show Function.update m.place k .outside w = .waiting method' from hw] at hwait
      exact proper_update hfinish hwait
    · exact hfinish
  | wait k method wakes _ hready => exact proper_update h ⟨m.state, hready⟩
  | late k method result wakes _ _ => exact proper_update h trivial
  | timeUp k method result _ htimeout => exact proper_update h htimeout
  | spurious k method hk =>
    have hwait := h k
    rw [hk] at hwait
    exact proper_update h hwait

/-- A notification changes no state. -/
lemma notify_same (h : m.notify wakes = some m') : m'.state = m.state ∧ m'.done = m.done := by
  obtain ⟨w, method, -, rfl⟩ | ⟨rfl, -⟩ := notify_cases h
  · exact ⟨rfl, rfl⟩
  · exact ⟨rfl, rfl⟩

/-- Every step keeps the methods atomic. -/
lemma Atomic.step {s : σ} (h : Atomic ops s m.done m.state)
    (hproper : ∀ k, Proper ops (m.place k)) (hs : Steps ops m e m') : Atomic ops s m'.done m'.state := by
  cases hs with
  | call _ _ _ => exact h
  | run k method _ _ _ hready _ => exact h.run k method hready
  | notify k method _ _ _ _ hready _ hnotify =>
    obtain ⟨hstate, hdone⟩ := notify_same hnotify
    rw [hstate, hdone]
    exact h.run k method hready
  | wait _ _ _ _ _ => exact h
  | late k method result _ hk hready =>
    have htimeout := hproper k
    rw [hk] at htimeout
    exact h.late k method result hready htimeout
  | timeUp _ _ _ _ _ => exact h
  | spurious _ _ _ => exact h

/-- In every run the places are proper. -/
theorem proper_of_run {s : σ} {P : Monitor κ μ σ ρ → MonitorEvent κ μ → Prop}
    (h : Run (step ops) P (initial s) m) : ∀ k, Proper ops (m.place k) :=
  h.invariant (I := fun m : Monitor κ μ σ ρ => ∀ k, Proper ops (m.place k))
    (fun _ _ _ hm _ hs => proper_step hm (step_cases hs)) fun _ => (trivial : Proper ops .outside)

/-- In every run each call that has returned took effect at one moment. -/
theorem atomic_of_run {s : σ} {P : Monitor κ μ σ ρ → MonitorEvent κ μ → Prop}
    (h : Run (step ops) P (initial s) m) : Atomic ops s m.done m.state := by
  induction h with
  | refl => exact .nil
  | step h _ hs ih => exact ih.step (proper_of_run h) (step_cases hs)

/-! ### Notifications -/

/-- The number of threads that are awake again. -/
def awake (place : κ → Place μ ρ) : ℕ := (Finset.univ.filter fun k => (place k).isWoken = true).card

/-- The threads that are awake, counted behind a change of one place. -/
lemma awake_update (place : κ → Place μ ρ) (k : κ) (p : Place μ ρ) :
    awake (Function.update place k p) + (if (place k).isWoken then 1 else 0) =
      awake place + if p.isWoken then 1 else 0 := by
  have herase : (Finset.univ.filter fun j => (place j).isWoken = true).card =
      ((Finset.univ.filter fun j => (place j).isWoken = true).erase k).card +
        if (place k).isWoken then 1 else 0 := by
    split_ifs with hk
    · rw [Finset.card_erase_add_one (by simpa using hk)]
    · rw [Finset.erase_eq_of_notMem (by simpa using hk), Nat.add_zero]
  have hupdate : (Finset.univ.filter fun j => (Function.update place k p j).isWoken = true).card =
      ((Finset.univ.filter fun j => (place j).isWoken = true).erase k).card +
        if p.isWoken then 1 else 0 := by
    split_ifs with hp
    · rw [← Finset.card_insert_of_notMem (Finset.notMem_erase k _)]
      congr 1
      ext j
      by_cases hj : j = k <;> simp [hj, hp]
    · rw [Nat.add_zero]
      congr 1
      ext j
      by_cases hj : j = k <;> simp [hj, hp]
  rw [awake, awake, hupdate, herase]
  omega

/-- What the operations do to a number of things that are there: who waits does it because there is
nothing, what is notified is one thing more, and who has waited takes something. -/
structure Counts (avail : σ → ℕ) (op : Operation σ ρ) : Prop where
  nothing : ∀ s, op.ready s = false → avail s = 0
  gives : ∀ s, op.ready s = true → avail (op.run s).1 ≤ avail s + if op.notifies then 1 else 0
  takes : ∀ s t, op.ready s = false → op.ready t = true → avail (op.run t).1 < avail t

/-- As long as a thread waits, the things that are there are not more than the threads awake. -/
def Enough (avail : σ → ℕ) (m : Monitor κ μ σ ρ) : Prop :=
  ∀ k method, m.place k = .waiting method → avail m.state ≤ awake m.place

variable {avail : σ → ℕ}

/-- A thread goes to a place where it does not wait. -/
lemma Enough.update {p : Place μ ρ} (hplace : m'.place = Function.update m.place k p)
    (hp : p.waits = false)
    (h : ∀ j method, m.place j = .waiting method → avail m'.state ≤ awake m'.place) :
    m'.Enough avail := by
  intro j method hj
  rw [hplace] at hj
  by_cases hjk : j = k
  · rw [hjk, Function.update_self] at hj
    rw [hj] at hp
    cases hp
  · rw [Function.update_of_ne hjk] at hj
    exact h j method hj

/-- What is there when a thread returns, which has taken something if it had waited. -/
lemma Enough.finish (hop : Counts avail (ops method)) (hproper : ∀ k, Proper ops (m.place k))
    (h : m.Enough avail) (hk : m.Ready k method late) (hready : (ops method).ready m.state = true)
    {j : κ} {method' : μ} (hj : m.place j = .waiting method') :
    avail ((ops method).run m.state).1 ≤
      awake (Function.update m.place k .outside) + if (ops method).notifies then 1 else 0 := by
  have hcount := awake_update m.place k .outside
  have henough := h j method' hj
  have hgives := hop.gives m.state hready
  cases hk with
  | entering hk =>
    simp only [hk, Place.isWoken, Bool.false_eq_true, if_false] at hcount
    omega
  | woken hk =>
    have hwaited := hproper k
    rw [hk] at hwaited
    obtain ⟨s, hs⟩ := hwaited
    have htakes := hop.takes s m.state hs hready
    simp only [hk, Place.isWoken, Bool.false_eq_true, if_true, if_false] at hcount
    omega
  | expired result hk =>
    simp only [hk, Place.isWoken, Bool.false_eq_true, if_false] at hcount
    omega

/-- Every step keeps enough threads awake. -/
lemma Enough.step (hops : ∀ method, Counts avail (ops method))
    (hproper : ∀ k, Proper ops (m.place k)) (h : m.Enough avail) (hs : Steps ops m e m') :
    m'.Enough avail := by
  -- a thread goes from one place to another, and nothing else happens
  have hgo : ∀ {k p}, p.waits = false → (m.place k).isWoken = false → (m.setPlace k p).Enough avail := by
    intro k p hp hk
    refine Enough.update rfl hp fun j method hj => ?_
    have hcount := awake_update m.place k p
    have henough := h j method hj
    simp only [hk, Bool.false_eq_true, if_false] at hcount
    show avail m.state ≤ awake (Function.update m.place k p)
    omega
  cases hs with
  | call k method hk => exact hgo rfl (by rw [hk]; rfl)
  | run k method late wakes hk hready hnotifies =>
    refine Enough.update rfl rfl fun j method' hj => ?_
    have hle := h.finish (hops method) hproper hk hready hj
    rw [hnotifies] at hle
    exact hle
  | notify k method late wakes _ hk hready hnotifies hnotify =>
    obtain ⟨w, method', hw, rfl⟩ | ⟨rfl, hnone⟩ := notify_cases hnotify
    · refine fun j _ _ => ?_
      have hwk : w ≠ k := by
        rintro rfl
        rw [finish_place, Function.update_self] at hw
        cases hw
      rw [finish_place, Function.update_of_ne hwk] at hw
      have hle := h.finish (hops method) hproper hk hready hw
      have hcount := awake_update (Function.update m.place k .outside) w (.woken method')
      rw [Function.update_of_ne hwk, hw] at hcount
      rw [hnotifies] at hle
      simp only [Place.isWoken, Bool.false_eq_true, if_true, if_false, Nat.add_zero] at hle hcount
      show avail ((ops method).run m.state).1 ≤ awake (Function.update (Function.update m.place k _) w _)
      omega
    · exact fun j method' hj => absurd hj (hnone j method')
  | wait k method wakes hk hready =>
    refine fun j _ _ => ?_
    show avail m.state ≤ _
    rw [(hops method).nothing _ hready]
    exact Nat.zero_le _
  | late k method result wakes hk hready => exact hgo rfl (by rw [hk]; rfl)
  | timeUp k method result hk htimeout => exact hgo rfl (by rw [hk]; rfl)
  | spurious k method hk => exact hgo rfl (by rw [hk]; rfl)

/-- No notification is lost: in every run, as long as a thread waits, there is a thread awake for each
of the things that are there. -/
theorem awake_le {s : σ} {P : Monitor κ μ σ ρ → MonitorEvent κ μ → Prop}
    (hops : ∀ method, Counts avail (ops method)) (h : Run (step ops) P (initial s) m) {k : κ}
    {method : μ} (hk : m.place k = .waiting method) : avail m.state ≤ awake m.place := by
  have hall : m.Enough avail := by
    clear hk
    induction h with
    | refl => exact fun _ _ hk => by cases hk
    | step h _ hs ih => exact ih.step hops (proper_of_run h) (step_cases hs)
  exact hall k method hk

end Monitor

end Machine
